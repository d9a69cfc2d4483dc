import ShaderNet.NodeKind.Recipes
import ShaderNet.Proofs.Evaluate.Follow

/-! Inputs that recipes ask for. A recipe that comes to a result has asked for the same inputs in the same
order whatever it was told, so nothing but the answers to these matters. -/
namespace ShaderNet

namespace Recipe

variable {α β : Type} {names more : List String}

def Asks : List String → Recipe α → Prop
  | names, .done _ => names = []
  | _, .fail _ => True
  | names, .ask name next => ∃ rest, names = name :: rest ∧ ∀ answer, (next answer).Asks rest

theorem asksBind {r : Recipe α} {f : α → Recipe β} (first : r.Asks names) (then' : ∀ a, (f a).Asks more) :
    (r >>= f).Asks (names ++ more) := by
  change (r.bind f).Asks (names ++ more)
  induction r generalizing names with
  | done a =>
    cases first
    exact then' a
  | fail e => trivial
  | ask name next ih =>
    obtain ⟨rest, rfl, later⟩ := first
    exact ⟨rest ++ more, rfl, fun answer => ih answer (later answer)⟩

theorem asksThen {r : Recipe α} {f : α → Recipe β} (first : r.Asks names) (then' : ∀ a, (f a).Asks []) :
    (r >>= f).Asks names := by
  simpa only [List.append_nil] using asksBind first then'

theorem asksNothing {r : Recipe α} (nothing : r.Asks []) : (∃ a, r = .done a) ∨ ∃ e, r = .fail e := by
  cases r with
  | done a => exact .inl ⟨a, rfl⟩
  | fail e => exact .inr ⟨e, rfl⟩
  | ask name next =>
    obtain ⟨rest, impossible, _⟩ := nothing
    cases impossible

theorem asksInput {name : String} {f : Option Expression → Recipe β}
    (then' : ∀ answer, (f answer).Asks more) : (input name >>= f).Asks (name :: more) :=
  ⟨more, rfl, then'⟩

theorem asksExcept (x : Except Unsupported α) : (ofExcept x).Asks [] := by
  cases x with
  | error cause => trivial
  | ok a => rfl

theorem asksParameter (node : Node) (name : String) (kind : ParameterKind) (read : Parameter → Option α)
    (default : α) : (parameter node name kind read default).Asks [] := by
  unfold parameter
  split
  · rfl
  · split
    · rfl
    · trivial

theorem asksMapM {f : α → Recipe β} (name : α → String) {l : List α}
    (each : ∀ a ∈ l, (f a).Asks [name a]) : (l.mapM f).Asks (l.map name) := by
  induction l with
  | nil => rfl
  | cons a rest ih =>
    rw [List.mapM_cons]
    refine asksBind (each a List.mem_cons_self) fun b => ?_
    exact asksThen (ih fun c member => each c (List.mem_cons_of_mem _ member)) fun _ => rfl

theorem asksFoldlM {f : β → α → Recipe β} (name : α → String) {l : List α}
    (each : ∀ b, ∀ a ∈ l, (f b a).Asks [name a]) (b : β) : (l.foldlM f b).Asks (l.map name) := by
  induction l generalizing b with
  | nil => rfl
  | cons a rest ih =>
    rw [List.foldlM_cons]
    exact asksBind (each b a List.mem_cons_self) fun b =>
      ih (fun b c member => each b c (List.mem_cons_of_mem _ member)) b

/-! What is asked for and what is told -/

variable {r : Recipe α} {f g : String → Except Failure (Option Expression)}

theorem asksAnswered (asks : r.Asks names) {a : α} (ok : r.follow g = .ok a) :
    ∀ name ∈ names, ∃ answer, g name = .ok answer := by
  induction r generalizing names with
  | done result =>
    cases asks
    exact List.forall_mem_nil _
  | fail e => cases ok
  | ask name next ih =>
    obtain ⟨rest, rfl, later⟩ := asks
    rw [follow] at ok
    cases told : g name with
    | error e =>
      rw [told] at ok
      cases ok
    | ok answer =>
      rw [told] at ok
      exact List.forall_mem_cons.mpr ⟨⟨answer, told⟩, ih answer (later answer) ok⟩

theorem asksFollow (asks : r.Asks names) (same : ∀ name ∈ names, f name = g name) :
    r.follow f = r.follow g := by
  induction r generalizing names with
  | done result => rfl
  | fail e => rfl
  | ask name next ih =>
    obtain ⟨rest, rfl, later⟩ := asks
    obtain ⟨here, others⟩ := List.forall_mem_cons.mp same
    simp only [follow, here]
    cases g name with
    | error e => rfl
    | ok answer => exact ih answer (later answer) others

end Recipe

theorem ValueType.samplerZero : ValueType.sampler.zero = .error (.noZero .sampler) := by rw [zero]

namespace NodeKind
open Recipe

theorem operandAsks (node : Node) (name : String) : (operand node name).Asks [name] := by
  refine asksInput fun answer => ?_
  cases answer with
  | none => trivial
  | some e => rfl

theorem castTargetAsks (node : Node) : (castTarget node).Asks [] := by
  refine asksThen (asksParameter ..) fun name => ?_
  split
  · trivial
  · split
    · rfl
    · trivial

theorem sliceAsks (size : Nat) : (slice size).Asks [] := by
  unfold slice
  split
  · rfl
  · trivial

theorem splitPartsAsks (node : Node) (e : Expression) : (splitParts node e).Asks [] := by
  unfold splitParts
  split
  · dsimp only
    split
    · rfl
    · exact asksThen (sliceAsks _) fun _ => rfl
  · trivial

theorem componentAsks (size : Nat) (node : Node) (name : String) :
    (componentOf size node name).Asks [name] := by
  refine asksInput fun answer => ?_
  cases answer with
  | none => exact asksThen (asksParameter ..) fun _ => rfl
  | some e =>
    dsimp only
    split
    · rfl
    · trivial

theorem argumentAsks (function name : String) (type : ValueType) :
    (argument function name type).Asks [name] := by
  refine asksInput fun answer => ?_
  cases answer with
  | none => exact asksExcept _
  | some e =>
    dsimp only
    split
    · rfl
    · trivial

theorem narrowedAsks (s : Signature) :
    (narrowed s).Asks (s.parameters.map Prod.fst) := by
  refine asksFoldlM Prod.fst (fun n p _ => ?_) _
  refine ⟨[], rfl, fun answer => ?_⟩
  cases answer with
  | none => rfl
  | some e => exact asksExcept _

theorem compileBuiltinAsks (s : Signature) :
    (compileBuiltin s).Asks (s.parameters.map Prod.fst ++ s.parameters.map Prod.fst) := by
  refine asksBind (narrowedAsks s) fun n => asksThen (asksMapM Prod.fst fun p _ => ?_) fun _ => ?_
  · exact asksBind (asksExcept _) fun type => argumentAsks s.name p.1 type
  · exact asksThen (asksExcept _) fun _ => rfl

theorem functionOfAsks (s : Surroundings) (node : Node) : (functionOf s node).Asks [] := by
  refine asksThen (asksParameter ..) fun name => ?_
  split
  · rfl
  · trivial

theorem literalAsks (base : Scalar) (node : Node) : (literalText base node).Asks [] := by
  unfold literalText
  split
  · exact asksThen (asksParameter ..) fun _ => rfl
  · refine asksThen (asksParameter ..) fun x => ?_
    split
    · rfl
    · trivial

theorem uniformOfAsks (s : Surroundings) (node : Node) : (uniformOf s node).Asks [] := by
  refine asksThen (asksParameter ..) fun name => ?_
  split
  · rfl
  · trivial

theorem compileAsks (kind : NodeKind) (s : Surroundings) (node : Node) :
    ∃ names, (kind.compile s node).Asks names := by
  cases kind with
  | literal base => exact ⟨[], asksThen (literalAsks base node) fun _ => rfl⟩
  | color => exact ⟨[], asksThen (asksParameter ..) fun _ => rfl⟩
  | ambient value => exact ⟨[], rfl⟩
  | uniform => exact ⟨[], asksThen (uniformOfAsks s node) fun _ => rfl⟩
  | operator op =>
    exact ⟨_, asksBind (operandAsks node "a") fun _ => asksThen (operandAsks node "b") fun _ => rfl⟩
  | negate => exact ⟨_, asksThen (operandAsks node "a") fun _ => rfl⟩
  | cast =>
    refine ⟨_, asksBind (castTargetAsks node) fun target => @asksInput _ [] _ _ fun answer => ?_⟩
    cases answer with
    | none => exact asksThen (asksExcept _) fun _ => rfl
    | some e => exact asksThen (asksExcept _) fun _ => rfl
  | compose size =>
    exact ⟨_, asksThen (asksMapM id fun name _ => componentAsks size node name) fun _ => rfl⟩
  | split =>
    refine ⟨_, @asksInput _ [] _ _ fun answer => ?_⟩
    cases answer with
    | none => rfl
    | some e => exact splitPartsAsks node e
  | swizzle =>
    refine ⟨_, asksBind (asksParameter ..) fun member => @asksInput _ [] _ _ fun answer => ?_⟩
    cases answer with
    | none => exact asksThen (asksExcept _) fun _ => asksThen (asksExcept _) fun _ => rfl
    | some e =>
      refine asksThen (asksExcept _) fun type => ?_
      dsimp only
      split <;> rfl
  | builtin signature => exact ⟨_, compileBuiltinAsks signature⟩
  | function =>
    rw [compile, compileFunction]
    rcases asksNothing (functionOfAsks s node) with ⟨f, found⟩ | ⟨e, missing⟩
    · rw [found]
      refine ⟨_, asksThen (r := f.parameters.mapM fun p => argument f.name p.1 p.2)
        (asksMapM Prod.fst fun p _ => argumentAsks f.name p.1 p.2) fun _ => ?_⟩
      cases f.output <;> rfl
    · rw [missing]
      exact ⟨[], trivial⟩
  | texture =>
    refine ⟨_, @asksInput _ ["uv"] _ _ fun answer => ?_⟩
    cases answer with
    | none =>
      dsimp only
      rw [ValueType.samplerZero]
      trivial
    | some sampler =>
      dsimp only
      split
      · refine @asksInput _ [] _ _ fun answer => ?_
        cases answer with
        | none => rfl
        | some e =>
          dsimp only
          split
          · rfl
          · trivial
      · trivial
  | sink label =>
    refine ⟨_, @asksInput _ [] _ _ fun answer => ?_⟩
    cases answer with
    | none => rfl
    | some e => exact asksThen (asksExcept _) fun _ => rfl

end NodeKind
end ShaderNet

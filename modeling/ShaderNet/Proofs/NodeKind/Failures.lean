import ShaderNet.NodeKind.Recipes
import ShaderNet.Proofs.Evaluate.Follow

/-! What can go wrong in a recipe. All failures that a recipe comes to by itself concern its own node:
its parameters, what it names and the types it is given. None is worded like a cycle. -/
namespace ShaderNet

namespace Failure

def isPlain : Failure → Bool
  | fragment _ | cyclic _ => false
  | _ => true

def startsOtherwise (s : String) : Bool := s.toList.head?.any fun c => c ≠ 'D'

theorem headAppend {s : String} {c : Char} (first : s.toList.head? = some c) (t : String) :
    (s ++ t).toList.head? = some c := by
  rw [String.toList_append, List.head?_append, first]
  rfl

theorem startsAppend {s : String} (starts : startsOtherwise s = true) (t : String) :
    startsOtherwise (s ++ t) = true := by
  obtain ⟨c, first, other⟩ := (Option.any_eq_true _ _).mp starts
  exact (Option.any_eq_true _ _).mpr ⟨c, headAppend first t, other⟩

theorem unsupportedStarts (cause : Unsupported) : startsOtherwise cause.message = true := by
  cases cause <;> repeat (first | rfl | apply startsAppend)

theorem plainStarts {e : Failure} (plain : e.isPlain = true) : startsOtherwise e.message = true := by
  cases e with
  | unsupported cause => exact unsupportedStarts cause
  | fragment error => cases plain
  | cyclic nodes => cases plain
  | _ => repeat (first | rfl | apply startsAppend)

theorem cyclicFirst (path : List String) : (cyclic path).message.toList.head? = some 'D' :=
  headAppend (by decide) _

theorem plainMessage {e : Failure} (plain : e.isPlain = true) (path : List String) :
    e.message ≠ (cyclic path).message := by
  intro same
  obtain ⟨c, found, other⟩ := (Option.any_eq_true _ _).mp (plainStarts plain)
  have first := congrArg (fun s => s.toList.head?) same
  have letter : c = 'D' := Option.some.inj (found.symm.trans (first.trans (cyclicFirst path)))
  rw [letter] at other
  exact absurd other (by decide)

end Failure

namespace Recipe

variable {α β σ : Type}

def Plain : Recipe α → Prop
  | .done _ => True
  | .fail e => e.isPlain = true
  | .ask _ next => ∀ answer, (next answer).Plain

theorem plainBind {r : Recipe α} {f : α → Recipe β} (first : r.Plain) (second : ∀ a, (f a).Plain) :
    (r >>= f).Plain := by
  change (r.bind f).Plain
  induction r with
  | done a => exact second a
  | fail e => exact first
  | ask name next ih => exact fun answer => ih answer (first answer)

theorem plainMapM {f : α → Recipe β} (each : ∀ a, (f a).Plain) (l : List α) : (l.mapM f).Plain := by
  induction l with
  | nil => trivial
  | cons a rest ih =>
    rw [List.mapM_cons]
    exact plainBind (each a) fun _ => plainBind ih fun _ => trivial

theorem plainFoldlM {f : β → α → Recipe β} (each : ∀ b a, (f b a).Plain) (l : List α) (b : β) :
    (l.foldlM f b).Plain := by
  induction l generalizing b with
  | nil => trivial
  | cons a rest ih =>
    rw [List.foldlM_cons]
    exact plainBind (each b a) ih

theorem plainInput (name : String) : (input name).Plain := fun _ => trivial

theorem plainInputType (name : String) : (inputType name).Plain :=
  plainBind (plainInput name) fun _ => trivial

theorem plainOfExcept (x : Except Unsupported α) : (ofExcept x).Plain := by
  cases x <;> trivial

theorem plainParameter (node : Node) (name : String) (kind : ParameterKind)
    (read : Parameter → Option α) (default : α) : (parameter node name kind read default).Plain := by
  unfold parameter
  split
  · trivial
  · split <;> trivial

/- Whoever answers only plainly, as long as something is kept, gets no other failure. -/
theorem runPlain {kept : σ → Prop} {answer : String → σ → Except Failure (Option Expression) × σ}
    (answers : ∀ name s, kept s → kept (answer name s).2 ∧
      ∀ e, (answer name s).1 = .error e → e.isPlain = true)
    {r : Recipe α} (plain : r.Plain) {s : σ} (start : kept s) :
    ∀ e, (r.run answer s).1 = .error e → e.isPlain = true := by
  induction r generalizing s with
  | done a => exact fun e impossible => by cases impossible
  | fail e =>
    intro e failed
    cases failed
    exact plain
  | ask name next ih =>
    obtain ⟨now, refused⟩ := answers name s start
    simp only [run]
    split <;> rename_i answered <;> rw [answered] at now refused
    · exact ih _ (plain _) now
    · intro e failed
      cases failed
      exact refused _ rfl

end Recipe

namespace NodeKind
open Recipe

theorem operandPlain (node : Node) (name : String) : (operand node name).Plain :=
  plainBind (plainInput name) fun answer => by cases answer <;> trivial

theorem literalTextPlain (base : Scalar) (node : Node) : (literalText base node).Plain := by
  unfold literalText
  split
  · exact plainBind (plainParameter ..) fun _ => trivial
  · refine plainBind (plainParameter ..) fun x => ?_
    split <;> trivial

theorem uniformOfPlain (s : Surroundings) (node : Node) : (uniformOf s node).Plain := by
  refine plainBind (plainParameter ..) fun id => ?_
  split <;> trivial

theorem castTargetPlain (node : Node) : (castTarget node).Plain := by
  refine plainBind (plainParameter ..) fun name => ?_
  split
  · trivial
  · split <;> trivial

theorem compileCastPlain (node : Node) : (compileCast node).Plain := by
  refine plainBind (castTargetPlain node) fun target => ?_
  refine plainBind (plainInput _) fun answer => ?_
  cases answer <;> exact plainBind (plainOfExcept _) fun _ => trivial

theorem componentOfPlain (size : Nat) (node : Node) (name : String) :
    (componentOf size node name).Plain := by
  refine plainBind (plainInput _) fun answer => ?_
  cases answer with
  | none => exact plainBind (plainParameter ..) fun _ => trivial
  | some e =>
    dsimp only
    split <;> trivial

theorem slicePlain (size : Nat) : (slice size).Plain := by
  unfold slice
  split <;> trivial

theorem compileSplitPlain (node : Node) : (compileSplit node).Plain := by
  refine plainBind (plainInput _) fun answer => ?_
  cases answer with
  | none => trivial
  | some e =>
    dsimp only
    unfold splitParts
    split
    · dsimp only
      split
      · trivial
      · exact plainBind (slicePlain _) fun _ => trivial
    · trivial

theorem compileSwizzlePlain (node : Node) : (compileSwizzle node).Plain := by
  refine plainBind (plainParameter ..) fun member => plainBind (plainInput _) fun answer => ?_
  cases answer with
  | none => exact plainBind (plainOfExcept _) fun _ => plainBind (plainOfExcept _) fun _ => trivial
  | some e =>
    refine plainBind (plainOfExcept _) fun type => ?_
    split <;> trivial

theorem argumentPlain (function name : String) (type : ValueType) :
    (argument function name type).Plain := by
  refine plainBind (plainInput _) fun answer => ?_
  cases answer with
  | none => exact plainOfExcept _
  | some e =>
    dsimp only
    split <;> trivial

theorem narrowedPlain (s : Signature) : (narrowed s).Plain := by
  refine plainFoldlM (fun n p => plainBind (plainInputType _) fun type => ?_) _ _
  cases type with
  | none => trivial
  | some type => exact plainOfExcept _

theorem compileBuiltinPlain (s : Signature) : (compileBuiltin s).Plain := by
  refine plainBind (narrowedPlain s) fun n => plainBind (plainMapM (fun p => ?_) _) fun _ => ?_
  · exact plainBind (plainOfExcept _) fun _ => argumentPlain _ _ _
  · exact plainBind (plainOfExcept _) fun _ => trivial

theorem functionOfPlain (s : Surroundings) (node : Node) : (functionOf s node).Plain := by
  refine plainBind (plainParameter ..) fun name => ?_
  split <;> trivial

theorem compileFunctionPlain (s : Surroundings) (node : Node) : (compileFunction s node).Plain := by
  refine plainBind (functionOfPlain s node) fun f => ?_
  refine plainBind (plainMapM (fun p => argumentPlain _ _ _) _) fun _ => ?_
  split <;> trivial

theorem compileTexturePlain : compileTexture.Plain := by
  refine plainBind (plainInput _) fun sampler => ?_
  cases sampler with
  | none => trivial
  | some e =>
    dsimp only
    split
    · refine plainBind trivial fun sampler => plainBind (plainInput _) fun coordinates => ?_
      cases coordinates with
      | none => trivial
      | some e' =>
        dsimp only
        split <;> trivial
    · trivial

theorem compileSinkPlain : compileSink.Plain := by
  refine plainBind (plainInput _) fun answer => ?_
  cases answer with
  | none => trivial
  | some e => exact plainBind (plainOfExcept _) fun _ => trivial

theorem compilePlain (kind : NodeKind) (s : Surroundings) (node : Node) :
    (kind.compile s node).Plain := by
  cases kind with
  | literal base => exact plainBind (literalTextPlain base node) fun _ => trivial
  | color => exact plainBind (plainParameter ..) fun _ => trivial
  | ambient value => trivial
  | uniform => exact plainBind (uniformOfPlain s node) fun _ => trivial
  | operator op =>
    exact plainBind (operandPlain node _) fun _ => plainBind (operandPlain node _) fun _ => trivial
  | negate => exact plainBind (operandPlain node _) fun _ => trivial
  | cast => exact compileCastPlain node
  | compose size => exact plainBind (plainMapM (componentOfPlain size node) _) fun _ => trivial
  | split => exact compileSplitPlain node
  | swizzle => exact compileSwizzlePlain node
  | builtin signature => exact compileBuiltinPlain signature
  | function => exact compileFunctionPlain s node
  | texture => exact compileTexturePlain
  | sink label => exact compileSinkPlain

theorem splitSocketsPlain : splitSockets.Plain := by
  refine plainBind (plainInputType _) fun type => ?_
  cases type with
  | none => trivial
  | some type => exact plainBind (plainOfExcept _) fun _ => plainBind (slicePlain _) fun _ => trivial

theorem swizzleSocketsPlain (node : Node) : (swizzleSockets node).Plain := by
  refine plainBind (plainParameter ..) fun member => plainBind (plainInputType _) fun type => ?_
  cases type <;> exact plainBind (plainOfExcept _) fun _ => trivial

theorem builtinSocketsPlain (s : Signature) : (builtinSockets s).Plain := by
  refine plainBind (narrowedPlain s) fun n => plainBind (plainMapM (fun p => ?_) _) fun _ => ?_
  · exact plainBind (plainOfExcept _) fun _ => trivial
  · exact plainBind (plainOfExcept _) fun _ => trivial

theorem socketsPlain (kind : NodeKind) (s : Surroundings) (node : Node) :
    (kind.sockets s node).Plain := by
  have result : resultType.Plain := plainBind (plainInputType _) fun _ => trivial
  cases kind with
  | uniform => exact plainBind (uniformOfPlain s node) fun _ => trivial
  | operator op => exact plainBind result fun _ => trivial
  | negate => exact plainBind result fun _ => trivial
  | cast => exact plainBind (castTargetPlain node) fun _ => trivial
  | split => exact splitSocketsPlain
  | swizzle => exact swizzleSocketsPlain node
  | builtin signature => exact builtinSocketsPlain signature
  | function => exact plainBind (functionOfPlain s node) fun _ => trivial
  | _ => trivial

end NodeKind
end ShaderNet

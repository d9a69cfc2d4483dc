import ShaderNet.Evaluate
import ShaderNet.Proofs.NodeKind.Asks
import ShaderNet.Proofs.NodeKind.Yields
import ShaderNet.Proofs.Template.Joined

/-! One more input. A node that compiles with an input left open compiles as well with an expression of a
type that the input declares, unless it reads more out of the type than it declares: casts do not widen,
members have to be there, and a function may name two parameters alike. -/
namespace ShaderNet

namespace ValueType

def Plain (t : ValueType) : Prop := t.isScalar = true ∨ t.isVector = true ∨ t = .sampler

theorem Plain.single {t : ValueType} (plain : t.Plain) : t.isVariant = false := by
  rcases plain with scalar | vector | rfl
  · cases t <;> first | rfl | cases scalar
  · cases t <;> first | rfl | cases vector
  · rfl

theorem Plain.shape {t : ValueType} (plain : t.Plain)
    (fits : t.toImplicitly .anyScalarOrVector = true ∨ t.toStrictly .anyScalarOrVector = true) :
    t.isScalar = true ∨ t.isVector = true := by
  rcases plain with scalar | vector | rfl
  · exact .inl scalar
  · exact .inr vector
  · revert fits
    decide

theorem shapeSized {t : ValueType} (shape : t.isScalar = true ∨ t.isVector = true) :
    ∃ base size, t.base? = some base ∧ t.size? = some size ∧ t.component? = some (.scalar base) := by
  cases t with
  | scalar base => exact ⟨base, 1, rfl, rfl, rfl⟩
  | vector base size => exact ⟨base, size, rfl, rfl, rfl⟩
  | _ => rcases shape with impossible | impossible <;> cases impossible

/- The types that sockets of that kind list have up to four components. -/
theorem fitsSize {t : ValueType} (fits : t.toStrictly .anyScalarOrVector = true) {size : Nat}
    (sized : t.size? = some size) : size ≤ 4 := by
  have plain : t.isVariant = false := by cases t <;> first | rfl | cases sized
  have listed : ∀ u ∈ anyScalarOrVector.alternatives, u.size?.all (· ≤ 4) = true := by decide
  have here := listed t ((toStrictlyIff plain (by decide)).mp fits)
  rw [sized] at here
  exact of_decide_eq_true here

end ValueType

namespace Scene

theorem typeOfMember {inputs : List (String × ValueType)} {s : Socket} {t : ValueType}
    (typed : typeOf inputs s = .ok t) : (s.name, t) ∈ inputs := by
  unfold typeOf at typed
  split at typed
  · rename_i p found
    cases typed
    have named : p.1 = s.name := by simpa using List.find?_some found
    rw [← named]
    exact List.mem_of_find?_eq_some found
  · cases typed

end Scene

namespace NodeKind
open Recipe

def fits (kind : NodeKind) (source target : ValueType) : Bool :=
  if kind.promotesInputs then source.toImplicitly target else source.toStrictly target

def toldAt (g : String → Except Failure (Option Expression)) (input : String) (e : Expression)
    (name : String) : Except Failure (Option Expression) :=
  if name = input then .ok (some e) else g name

/-- Types that an input refuses although they are among those it declares. -/
inductive Refuses (s : Surroundings) (node : Node) (input : String) (type : ValueType) :
    NodeKind → Prop where
  | widening {target : ValueType} {m n : Nat} (aimed : castTarget node = .done target)
      (source : type.size? = some m) (wider : target.size? = some n) (several : 1 < m) (fewer : m < n) :
      Refuses s node input type .cast
  | scalarSelection {member : String} {l : List Nat} (selected : text node "member" "x" = .done member)
      (placed : positions member = .ok l) (scalar : type.isScalar = true) (several : l ≠ [0]) :
      Refuses s node input type .swizzle
  | missingComponent {member : String} {l : List Nat} {size i : Nat}
      (selected : text node "member" "x" = .done member) (placed : positions member = .ok l)
      (vector : type.isScalar = false) (sized : type.size? = some size) (among : i ∈ l)
      (beyond : size ≤ i) : Refuses s node input type .swizzle
  | otherParameter {f : ExportedFunction} {other : ValueType} (named : functionOf s node = .done f)
      (declared : (input, other) ∈ f.parameters) (differs : type.toStrictly other = false) :
      Refuses s node input type .function

section Fed

theorem followDone {α : Type} {r : Recipe α} {a : α} (done : r = .done a)
    {g : String → Except Failure (Option Expression)} : r.follow g = .ok a := by
  rw [done]
  rfl

variable {s : Surroundings} {node : Node} {g : String → Except Failure (Option Expression)} {x : String}
  {e : Expression} {c : Compiled} {t : ValueType}

theorem toldHere : toldAt g x e x = .ok (some e) := if_pos rfl

theorem toldElsewhere {name : String} (other : name ≠ x) : toldAt g x e name = g name := if_neg other

theorem exceptFollows {α β : Type} {refused : Prop} {y : Except Unsupported α} {f : α → Recipe β}
    (done : ∀ a, ∃ b, (f a).follow g = .ok b) (iff : refused ↔ ∃ cause, y = .error cause) :
    (∃ b, (ofExcept y >>= f).follow g = .ok b) ↔ ¬ refused := by
  rw [iff]
  cases y with
  | error cause =>
    refine ⟨?_, fun never => absurd ⟨cause, rfl⟩ never⟩
    rintro ⟨_, ok⟩
    cases ok
  | ok a =>
    refine ⟨fun _ => ?_, fun _ => done a⟩
    rintro ⟨_, failed⟩
    cases failed

theorem castTargetSized {target : ValueType} (aimed : castTarget node = .done target) :
    ∃ n, target.size? = some n := by
  have good : (castTarget node).Ensures (fun _ => True) Target := targetGiven
  rw [aimed] at good
  obtain ⟨_, n, _, sized, _⟩ := ValueType.shapeSized good.2
  exact ⟨n, sized⟩

theorem castFed {m : Nat} (sized : e.type.size? = some m) (ok : (compileCast node).follow g = .ok c) :
    (∃ d, (compileCast node).follow (toldAt g "value" e) = .ok d) ↔
      ¬ cast.Refuses s node "value" e.type := by
  rcases asksNothing (castTargetAsks node) with ⟨target, aimed⟩ | ⟨_, failed⟩
  · obtain ⟨n, counted⟩ := castTargetSized aimed
    have widens : cast.Refuses s node "value" e.type ↔ 1 < m ∧ m < n := by
      constructor
      · rintro ⟨aimed', source, wider, several, fewer⟩
        cases aimed.symm.trans aimed'
        cases sized.symm.trans source
        cases counted.symm.trans wider
        exact ⟨several, fewer⟩
      · rintro ⟨several, fewer⟩
        exact .widening aimed sized counted several fewer
    rw [compileCast, followOn (followDone aimed), followOn ((followInput _ _).trans toldHere)]
    refine exceptFollows (fun d => ⟨_, rfl⟩) (widens.trans ?_)
    simp only [castFrom, sized, counted]
    constructor
    · exact fun wide => ⟨_, if_pos wide⟩
    · rintro ⟨cause, failed⟩
      by_contra narrow
      rw [if_neg narrow] at failed
      split at failed <;> cases failed
  · rw [compileCast, failed] at ok
    cases ok

theorem composeFed {size : Nat} (fits : e.type.toImplicitly .float = true)
    (ok : (compileCompose size node).follow g = .ok c) :
    ∃ d, (compileCompose size node).follow (toldAt g x e) = .ok d := by
  obtain ⟨parts, each, _⟩ := followBindOk ok
  rw [followMapM] at each
  have now : ∀ name ∈ components.take size,
      ∃ part, (componentOf size node name).follow (toldAt g x e) = .ok part := by
    intro name listed
    by_cases here : name = x
    · subst here
      refine ⟨(e.text, e.trivial), (followOn ((followInput _ _).trans toldHere) _).trans ?_⟩
      simp only [fits, if_true]
      rfl
    · obtain ⟨part, made⟩ := mapMEach each name listed
      refine ⟨part, (asksFollow (componentAsks size node name) ?_).trans made⟩
      exact List.forall_mem_singleton.mpr (toldElsewhere here)
  obtain ⟨parts, made⟩ := mapMSucceeds now
  rw [← followMapM] at made
  exact ⟨_, followOn made _⟩

theorem splitFed (shape : e.type.isScalar = true ∨ e.type.isVector = true)
    (fits : e.type.toStrictly .anyScalarOrVector = true) :
    ∃ d, (compileSplit node).follow (toldAt g "vector" e) = .ok d := by
  obtain ⟨base, size, _, sized, parted⟩ := ValueType.shapeSized shape
  have parts : ∃ d, splitParts node e = .done d := by
    unfold splitParts
    rw [sized, parted]
    dsimp only
    rw [sliceWithin (ValueType.fitsSize fits sized)]
    split <;> exact ⟨_, rfl⟩
  obtain ⟨d, parts⟩ := parts
  refine ⟨d, (followOn ((followInput _ _).trans toldHere) _).trans ?_⟩
  exact congrArg (follow _) parts

theorem splitInputs {sockets : Sockets} (offered : splitSockets.follow g = .ok sockets) :
    sockets.inputs = [("vector", .anyScalarOrVector)] := by
  obtain ⟨type, _, offered⟩ := followBindOk offered
  cases type with
  | none =>
    cases offered
    rfl
  | some type =>
    obtain ⟨_, _, offered⟩ := followBindOk offered
    obtain ⟨_, _, offered⟩ := followBindOk offered
    cases offered
    rfl

theorem swizzleInputs {sockets : Sockets} (offered : (swizzleSockets node).follow g = .ok sockets) :
    sockets.inputs = [("vector", .anyScalarOrVector)] := by
  obtain ⟨member, _, offered⟩ := followBindOk offered
  obtain ⟨type, _, offered⟩ := followBindOk offered
  cases type with
  | none =>
    obtain ⟨_, _, offered⟩ := followBindOk offered
    cases offered
    rfl
  | some type =>
    obtain ⟨_, _, offered⟩ := followBindOk offered
    cases offered
    rfl

theorem selectedFails {member : String} {l : List Nat} (placed : positions member = .ok l) {size : Nat}
    (sized : t.size? = some size) : (∃ cause, selectedType member t = .error cause) ↔
      (t.isScalar = true ∧ l ≠ [0]) ∨ (t.isScalar = false ∧ ∃ i ∈ l, size ≤ i) := by
  simp only [selectedType, placed, okBind, sized, Option.getD_some]
  cases scalar : t.isScalar with
  | true =>
    simp only [if_true, true_and, Bool.true_eq_false, false_and, or_false]
    split <;> rename_i first <;> simp [first]
  | false =>
    simp only [Bool.false_eq_true, if_false, false_and, true_and, false_or]
    cases missing : l.find? fun i => decide (size ≤ i) with
    | none =>
      have there := List.find?_eq_none.mp missing
      constructor
      · rintro ⟨_, failed⟩
        cases failed
      · rintro ⟨i, among, beyond⟩
        exact absurd (decide_eq_true beyond) (there i among)
    | some i =>
      refine ⟨fun _ => ⟨i, List.mem_of_find?_eq_some missing, ?_⟩, fun _ => ⟨_, rfl⟩⟩
      simpa using List.find?_some missing

theorem swizzleFed {size : Nat} (sized : e.type.size? = some size) (free : g "vector" = .ok none)
    (ok : (compileSwizzle node).follow g = .ok c) :
    (∃ d, (compileSwizzle node).follow (toldAt g "vector" e) = .ok d) ↔
      ¬ swizzle.Refuses s node "vector" e.type := by
  rcases asksNothing (asksParameter node "member" .text Parameter.text? "x") with
    ⟨member, selected⟩ | ⟨_, failed⟩
  · have selected : text node "member" "x" = .done member := selected
    rw [compileSwizzle, followOn (followDone selected)] at ok ⊢
    rw [followOn ((followInput _ _).trans free)] at ok
    obtain ⟨type, opened, _⟩ := followBindOk ok
    have placed : ∃ l, positions member = .ok l := by
      have opened := ofExceptOk.mp opened
      unfold openSelection at opened
      cases placed : positions member with
      | error cause =>
        rw [placed] at opened
        cases opened
      | ok l => exact ⟨l, rfl⟩
    obtain ⟨l, placed⟩ := placed
    rw [followOn ((followInput _ _).trans toldHere)]
    refine exceptFollows (fun type => ?_) ?_
    · split <;> exact ⟨_, rfl⟩
    · rw [selectedFails placed sized]
      constructor
      · intro refuses
        cases refuses with
        | scalarSelection selected' placed' scalar several =>
          cases selected.symm.trans selected'
          cases placed.symm.trans placed'
          exact .inl ⟨scalar, several⟩
        | missingComponent selected' placed' vector sized' among beyond =>
          cases selected.symm.trans selected'
          cases placed.symm.trans placed'
          cases sized.symm.trans sized'
          exact .inr ⟨vector, _, among, beyond⟩
      · rintro (⟨scalar, several⟩ | ⟨vector, i, among, beyond⟩)
        · exact .scalarSelection selected placed scalar several
        · exact .missingComponent selected placed vector sized among beyond
  · rw [compileSwizzle, show text node "member" "x" = _ from failed] at ok
    cases ok

theorem argumentElsewhere {function name : String} (other : name ≠ x) {type : ValueType} :
    (argument function name type).follow (toldAt g x e) = (argument function name type).follow g :=
  asksFollow (argumentAsks function name type) (List.forall_mem_singleton.mpr (toldElsewhere other))

theorem argumentHere {function : String} {type : ValueType} :
    (argument function x type).follow (toldAt g x e) =
      if e.type.toStrictly type then .ok e.text
      else .error (.unsupported (.argument x function type e.type)) := by
  refine (followOn ((followInput _ _).trans toldHere) _).trans ?_
  dsimp only
  split <;> rfl

theorem functionFed (ok : (compileFunction s node).follow g = .ok c) :
    (∃ d, (compileFunction s node).follow (toldAt g x e) = .ok d) ↔
      ¬ function.Refuses s node x e.type := by
  rcases asksNothing (functionOfAsks s node) with ⟨f, named⟩ | ⟨_, failed⟩
  · rw [compileFunction, followOn (followDone named)] at ok ⊢
    obtain ⟨_, before, _⟩ := followBindOk ok
    rw [followMapM] at before
    constructor
    · rintro ⟨d, now⟩ refused
      obtain ⟨_, written, _⟩ := followBindOk now
      rw [followMapM] at written
      cases refused with
      | otherParameter named' declared differs =>
        cases named.symm.trans named'
        obtain ⟨text, made⟩ := mapMEach written _ declared
        rw [argumentHere, differs] at made
        cases made
    · intro accepted
      have each : ∀ p ∈ f.parameters,
          ∃ text, (argument f.name p.1 p.2).follow (toldAt g x e) = .ok text := by
        rintro ⟨name, type⟩ declared
        by_cases here : name = x
        · subst here
          cases converts : e.type.toStrictly type with
          | true => exact ⟨e.text, argumentHere.trans (by rw [converts]; rfl)⟩
          | false => exact absurd (.otherParameter named declared converts) accepted
        · rw [argumentElsewhere here]
          exact mapMEach before _ declared
      obtain ⟨arguments, written⟩ := mapMSucceeds each
      rw [← followMapM] at written
      rw [followOn written]
      cases f.output <;> exact ⟨_, rfl⟩
  · rw [compileFunction, failed] at ok
    cases ok

theorem textureSampled (ok : compileTexture.follow g = .ok c) :
    ∃ sampler, g "sampler" = .ok (some sampler) ∧ sampler.type = .sampler := by
  obtain ⟨answer, told, ok⟩ := inputOk ok
  cases answer with
  | none =>
    dsimp only at ok
    rw [ValueType.samplerZero] at ok
    cases ok
  | some sampler =>
    dsimp only at ok
    split at ok
    · rename_i sampled
      exact ⟨sampler, told, sampled⟩
    · cases ok

theorem textureFed (fits : e.type.toStrictly (.vec 2) = true) (ok : compileTexture.follow g = .ok c) :
    ∃ d, compileTexture.follow (toldAt g "uv" e) = .ok d := by
  obtain ⟨sampler, told, sampled⟩ := textureSampled ok
  have still : toldAt g "uv" e "sampler" = .ok (some sampler) := (toldElsewhere (by decide)).trans told
  refine ⟨.single "color" (.compound (.vec 4) (call "texture" [sampler.text, e.text])), ?_⟩
  rw [compileTexture, followOn ((followInput _ _).trans still)]
  dsimp only
  rw [if_pos sampled]
  refine (followOn (followPure _ _) _).trans
    ((followOn ((followInput _ _).trans toldHere) _).trans ?_)
  simp only [fits, if_true]
  rfl

theorem sinkFed (shape : e.type.isScalar = true ∨ e.type.isVector = true) :
    ∃ d, compileSink.follow (toldAt g "color" e) = .ok d := by
  obtain ⟨base, size, based, sized, _⟩ := ValueType.shapeSized shape
  have shown : ∃ d, e.displayed = .ok d := by
    unfold Expression.displayed
    rw [based, sized]
    dsimp only
    split <;> exact ⟨_, rfl⟩
  obtain ⟨d, shown⟩ := shown
  refine ⟨.single "color" d, (followOn ((followInput _ _).trans toldHere) _).trans ?_⟩
  exact followOn (ofExceptOk.mpr shown) _

theorem builtinNames {signature : Signature} {sockets : Sockets}
    (offered : (builtinSockets signature).follow g = .ok sockets) :
    sockets.inputs.map Prod.fst = signature.parameters.map Prod.fst := by
  obtain ⟨n, _, offered⟩ := followBindOk offered
  obtain ⟨inputs, listing, offered⟩ := followBindOk offered
  obtain ⟨output, _, offered⟩ := followBindOk offered
  cases offered
  rw [followMapM] at listing
  refine (mapAgree ((mapMResults listing).imp fun p q given => ?_)).symm
  obtain ⟨_, _, given⟩ := followBindOk given
  cases given
  rfl

theorem builtinFed {signature : Signature} (callable : signature.Callable) (ordered : signature.Ordered)
    {target : Socket} (free : g target.name = .ok none)
    (ok : (compileBuiltin signature).follow g = .ok c) {sockets : Sockets}
    (offered : (builtinSockets signature).follow g = .ok sockets)
    (typed : Scene.typeOf sockets.inputs target = .ok t) (fits : e.type.toStrictly t = true)
    (plain : e.type.Plain) :
    ∃ d, (compileBuiltin signature).follow (toldAt g target.name e) = .ok d := by
  let a := fun name => (g name).toOption.join
  have answers : ∀ p ∈ signature.parameters, g p.1 = .ok (a p.1) := by
    intro p member
    have listed : p.1 ∈ signature.parameters.map Prod.fst ++ signature.parameters.map Prod.fst :=
      List.mem_append_left _ (List.mem_map_of_mem member)
    obtain ⟨answer, told⟩ := asksAnswered (compileBuiltinAsks signature) ok p.1 listed
    simp only [a, told]
    rfl
  have declared : target.name ∈ signature.parameters.map Prod.fst := by
    rw [← builtinNames offered]
    exact List.mem_map_of_mem (Scene.typeOfMember typed)
  obtain ⟨⟨name, slot⟩, declared, named⟩ := List.mem_map.mp declared
  have named : name = target.name := named
  subst named
  obtain ⟨n, narrowing, inputs⟩ := builtinSocketsResolve callable answers offered
  obtain ⟨type, resolved, found⟩ := inputs _ declared
  rw [Scene.typeOf, found] at typed
  cases typed
  let b := fun name => if name = target.name then some e else a name
  have answers' : ∀ p ∈ signature.parameters, toldAt g target.name e p.1 = .ok (b p.1) := by
    intro p member
    by_cases here : p.1 = target.name
    · simp only [b, toldAt, if_pos here]
    · simp only [b, toldAt, if_neg here]
      exact answers p member
  have opened : a target.name = none := by
    simp only [a, free]
    rfl
  exact callJoined callable ordered answers narrowing declared answers' opened (if_pos rfl)
    (fun name other => if_neg other) plain.single resolved fits ⟨c, ok⟩

end Fed

theorem operandOpen {node : Node} {g : String → Except Failure (Option Expression)} {name : String}
    (free : g name = .ok none) {a : Expression} : (operand node name).follow g ≠ .ok a := by
  rw [operand, followOn ((followInput _ _).trans free)]
  intro impossible
  cases impossible

theorem approvedFed {kind : NodeKind}
    (standard : ∀ signature, kind = .builtin signature → signature ∈ Signature.builtins)
    {s : Surroundings} {node : Node} {g : String → Except Failure (Option Expression)} {target : Socket}
    {e : Expression} {c : Compiled} {sockets : Sockets} {t : ValueType}
    (free : g target.name = .ok none) (ok : (kind.compile s node).follow g = .ok c)
    (offered : (kind.sockets s node).follow g = .ok sockets)
    (typed : Scene.typeOf sockets.inputs target = .ok t) (fits : kind.fits e.type t = true)
    (plain : e.type.Plain) :
    (∃ d, (kind.compile s node).follow (toldAt g target.name e) = .ok d) ↔
      ¬ kind.Refuses s node target.name e.type := by
  have declared := Scene.typeOfMember typed
  cases kind with
  | literal base =>
    cases offered
    cases declared
  | color =>
    cases offered
    cases declared
  | ambient value =>
    cases offered
    cases declared
  | uniform =>
    obtain ⟨_, _, offered⟩ := followBindOk offered
    cases offered
    cases declared
  | operator op =>
    -- a node whose operand is left open has not been made
    obtain ⟨_, _, offered⟩ := followBindOk offered
    cases offered
    obtain ⟨a, first, ok⟩ := followBindOk ok
    obtain ⟨b, second, _⟩ := followBindOk ok
    simp only [List.mem_cons, Prod.mk.injEq, List.not_mem_nil, or_false] at declared
    rcases declared with ⟨here, _⟩ | ⟨here, _⟩
    · exact absurd first (operandOpen (here ▸ free))
    · exact absurd second (operandOpen (here ▸ free))
  | negate =>
    obtain ⟨_, _, offered⟩ := followBindOk offered
    cases offered
    obtain ⟨a, first, _⟩ := followBindOk ok
    obtain ⟨here, _⟩ := Prod.mk.inj (List.mem_singleton.mp declared)
    exact absurd first (operandOpen (here ▸ free))
  | cast =>
    obtain ⟨_, _, offered⟩ := followBindOk offered
    cases offered
    obtain ⟨here, rfl⟩ := Prod.mk.inj (List.mem_singleton.mp declared)
    obtain ⟨_, m, _, sized, _⟩ := ValueType.shapeSized (plain.shape (.inl fits))
    rw [here]
    exact castFed sized ok
  | compose size =>
    cases offered
    obtain ⟨name, _, same⟩ := List.mem_map.mp declared
    obtain ⟨_, rfl⟩ := Prod.mk.inj same
    exact iff_of_true (composeFed fits ok) fun refuses => by cases refuses
  | split =>
    rw [splitInputs offered] at declared
    obtain ⟨here, rfl⟩ := Prod.mk.inj (List.mem_singleton.mp declared)
    rw [here]
    exact iff_of_true (splitFed (plain.shape (.inr fits)) fits) fun refuses => by cases refuses
  | swizzle =>
    rw [swizzleInputs offered] at declared
    obtain ⟨here, rfl⟩ := Prod.mk.inj (List.mem_singleton.mp declared)
    obtain ⟨_, size, _, sized, _⟩ := ValueType.shapeSized (plain.shape (.inr fits))
    rw [here] at free ⊢
    exact swizzleFed sized free ok
  | builtin signature =>
    have callable := Signature.builtinsCallable signature (standard signature rfl)
    have ordered := Signature.builtinsOrdered signature (standard signature rfl)
    exact iff_of_true (builtinFed callable ordered free ok offered typed fits plain)
      fun refuses => by cases refuses
  | function => exact functionFed ok
  | texture =>
    cases offered
    simp only [List.mem_cons, Prod.mk.injEq, List.not_mem_nil, or_false] at declared
    rcases declared with ⟨here, _⟩ | ⟨here, rfl⟩
    · obtain ⟨sampler, told, _⟩ := textureSampled ok
      rw [here, told] at free
      cases free
    · rw [here]
      exact iff_of_true (textureFed fits ok) fun refuses => by cases refuses
  | sink label =>
    cases offered
    obtain ⟨here, rfl⟩ := Prod.mk.inj (List.mem_singleton.mp declared)
    rw [here]
    exact iff_of_true (sinkFed (plain.shape (.inr fits))) fun refuses => by cases refuses

end NodeKind
end ShaderNet

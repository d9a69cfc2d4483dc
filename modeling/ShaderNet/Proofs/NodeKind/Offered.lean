import ShaderNet.NodeKind.Recipes
import ShaderNet.Proofs.Evaluate.Follow
import ShaderNet.Proofs.NodeKind.Mentions
import ShaderNet.Proofs.Table
import ShaderNet.Proofs.Template.Calls
import ShaderNet.Proofs.Template.Collapsed

/-! Sockets and results. Both are recipes of their own for every kind of node; whatever compiles has
declared the outputs it comes to, with their types. -/
namespace ShaderNet

theorem ValueType.scalarParts {t component : ValueType} {size : Nat} (scalar : t.isScalar = true)
    (sized : t.size? = some size) (parted : t.component? = some component) :
    size = 1 ∧ component = t := by
  cases t with
  | scalar base =>
    cases sized
    cases parted
    exact ⟨rfl, rfl⟩
  | _ => cases scalar

namespace Sockets

structure Declares (s : Sockets) (chosen : ValueType → ValueType) (c : Compiled) : Prop where
  once : (s.outputs.map Prod.fst).Nodup
  types : (Table.ofList s.outputs).mapValues (fun _ t => chosen t) = c.outputs.mapValues fun _ e => e.type

structure Offers (s : Sockets) (chosen : ValueType → ValueType) (c : Compiled) : Prop
    extends Declares s chosen c where
  regular : ∀ p ∈ s.outputs, (chosen p.2).isRegular = true

variable {chosen : ValueType → ValueType}

theorem Offers.output {s : Sockets} {c : Compiled} (offers : s.Offers chosen c) {name : String}
    {e : Expression} (found : c.outputs.get? name = some e) : e.type.isRegular = true := by
  have listed := congrArg (Table.get? · name) offers.types
  simp only [Table.getMapValues, found, Option.map_some] at listed
  obtain ⟨t, member, same⟩ := Option.map_eq_some_iff.mp listed
  exact same ▸ offers.regular (name, t) (Table.getOfListMember member)

theorem singleOffers {inputs : List (String × ValueType)} {socket : String} {t : ValueType}
    {e : Expression} (type : chosen t = e.type) (regular : e.type.isRegular = true) :
    Offers ⟨inputs, [(socket, t)]⟩ chosen (.single socket e) where
  once := List.pairwise_singleton _ _
  types := by
    refine ((∅ : Table String ValueType).mapValuesInsert _ socket t).trans ?_
    rw [Compiled.single, Compiled.withOutput, Table.mapValuesInsert, type]
    rfl
  regular := fun p member => by
    cases List.mem_singleton.mp member
    exact type ▸ regular

theorem eachTypes {names : List String} {f : String → Expression} {t : ValueType}
    (type : ∀ name, (f name).type = t) {declared : Table String ValueType} {c : Compiled}
    (same : declared = c.outputs.mapValues fun _ e => e.type) :
    declared.overlay (names.map fun name => (name, t)) =
      (names.foldl (fun c name => c.withOutput name (f name)) c).outputs.mapValues fun _ e => e.type := by
  induction names generalizing declared c with
  | nil => exact same
  | cons name rest ih =>
    refine ih ?_
    simp only [Compiled.withOutput, Table.mapValuesInsert, ← same, type]

theorem eachOffers {inputs : List (String × ValueType)} {names : List String} {f : String → Expression}
    {t : ValueType} {c : Compiled} (once : names.Nodup) (type : ∀ name, (f name).type = t)
    (regular : t.isRegular = true) (bare : c.outputs = ∅) :
    Offers ⟨inputs, names.map fun name => (name, t)⟩ id
      (names.foldl (fun c name => c.withOutput name (f name)) c) where
  once := by simpa [Function.comp_def] using once
  types := by
    have none : (∅ : Table String ValueType) = c.outputs.mapValues fun _ e => e.type := by
      rw [bare]
      rfl
    rw [← eachTypes type none]
    refine Table.ext fun name => ?_
    rw [Table.getMapValues]
    exact Option.map_id_apply
  regular := fun p member => by
    obtain ⟨name, _, rfl⟩ := List.mem_map.mp member
    exact regular

end Sockets

namespace NodeKind
open Recipe

/-- A function takes the first of the types that its arguments leave; all else is of the type that it
declares. -/
def chosen : NodeKind → ValueType → ValueType
  | builtin _ => ValueType.first
  | _ => id

variable {g : String → Except Failure (Option Expression)} {c : Compiled}

theorem operandOk {node : Node} {name : String} {e : Expression}
    (ok : (operand node name).follow g = .ok e) : g name = .ok (some e) := by
  obtain ⟨answer, told, ok⟩ := inputOk ok
  cases answer with
  | none => cases ok
  | some e' =>
    cases ok
    exact told

theorem hoistTypes (name : String) (e : Expression) :
    (Compiled.empty.hoist name e).1.outputs = ∅ ∧ (Compiled.empty.hoist name e).2.type = e.type := by
  unfold Compiled.hoist
  split <;> exact ⟨rfl, rfl⟩

theorem splitPartsOffers {node : Node} {e : Expression} (splits : Splits node e c)
    (inputs : List (String × ValueType)) : ∃ component, e.type.component = .ok component ∧
      e.type.size?.getD 1 ≤ 4 ∧ Sockets.Offers
        ⟨inputs, (components.take (e.type.size?.getD 1)).map fun c => (c, component)⟩ id c := by
  obtain ⟨bare, type⟩ := hoistTypes (Identifier.binding node.id "vector") e
  cases splits with
  | @scalar size component sized parted scalar =>
    have regular := ValueType.componentRegular parted
    obtain ⟨rfl, rfl⟩ := ValueType.scalarParts scalar sized parted
    refine ⟨e.type, by rw [ValueType.component, parted], ?_⟩
    rw [sized]
    refine ⟨by decide, ?_⟩
    exact @Sockets.eachOffers inputs ["x"] (fun _ => _) _ _ (by decide) (fun _ => type) regular bare
  | @vector size component sized parted _ within =>
    refine ⟨component, by rw [ValueType.component, parted], ?_⟩
    rw [sized]
    have once : (components.take size).Nodup := (List.take_sublist size components).nodup (by decide)
    exact ⟨within, Sockets.eachOffers once (fun _ => rfl) (ValueType.componentRegular parted) bare⟩

theorem splitOffers {node : Node} (ok : (compileSplit node).follow g = .ok c) :
    ∃ s, splitSockets.follow g = .ok s ∧ s.Offers id c := by
  obtain ⟨answer, told, ok⟩ := inputOk ok
  cases answer with
  | none =>
    cases ok
    refine ⟨_, followOn (inputTypeOk told) _, ?_⟩
    exact Sockets.eachOffers (by decide) (fun _ => rfl) rfl rfl
  | some e =>
    obtain ⟨component, found, within, offers⟩ := splitPartsOffers (splitPartsOk ok) _
    refine ⟨_, ?_, offers⟩
    refine (followOn (inputTypeOk told) _).trans ((followOn (ofExceptOk.mpr found) _).trans ?_)
    rw [sliceWithin within]
    rfl

theorem castTargetRegular {node : Node} {target : ValueType}
    (ok : (castTarget node).follow g = .ok target) : target.isRegular = true := by
  obtain ⟨name, _, ok⟩ := followBindOk ok
  split at ok
  · cases ok
  · rename_i found
    split at ok
    · cases ok
      exact ValueType.ofNameRegular found
    · cases ok

theorem castFromType {target : ValueType} {e d : Expression} (ok : castFrom target e = .ok d) :
    d.type = target := by
  unfold castFrom at ok
  split at ok
  · split at ok
    · cases ok
    · split at ok
      · rename_i same
        cases ok
        exact same
      · cases ok
        rfl
  · cases ok

theorem castOffers {node : Node} (ok : (compileCast node).follow g = .ok c) :
    ∃ target, (castTarget node).follow g = .ok target ∧
      ∀ inputs, Sockets.Offers ⟨inputs, [("out", target)]⟩ id c := by
  obtain ⟨target, aimed, ok⟩ := followBindOk ok
  have regular := castTargetRegular aimed
  refine ⟨target, aimed, fun inputs => ?_⟩
  obtain ⟨answer, _, ok⟩ := inputOk ok
  cases answer with
  | none =>
    obtain ⟨zero, _, ok⟩ := followBindOk ok
    cases ok
    exact Sockets.singleOffers rfl regular
  | some e =>
    obtain ⟨d, cast, ok⟩ := followBindOk ok
    cases ok
    have type := castFromType (ofExceptOk.mp cast)
    exact Sockets.singleOffers type.symm (type ▸ regular)

theorem composeOffers {size : Nat} (range : 1 ≤ size ∧ size ≤ 4) {node : Node}
    (ok : (compileCompose size node).follow g = .ok c) (inputs : List (String × ValueType)) :
    Sockets.Offers ⟨inputs, [("out", .vec size)]⟩ id c := by
  obtain ⟨parts, _, ok⟩ := followBindOk ok
  cases ok
  exact Sockets.singleOffers rfl (by simpa [ValueType.isRegular, ValueType.size?] using range)

theorem displayedType {e d : Expression} (ok : e.displayed = .ok d)
    (regular : e.type.isRegular = true) : d.type = .vec 4 := by
  obtain ⟨type, text, repeatable⟩ := e
  unfold Expression.displayed at ok
  split at ok
  · rename_i base size based sized
    split at ok
    · cases ok
      rfl
    · cases ok
      rfl
    · cases ok
      rfl
    · rename_i single pair triple
      cases ok
      split
      · rename_i float
        cases type with
        | vector b n =>
          have counted : n = size := Option.some.inj sized
          have range : 1 ≤ n ∧ n ≤ 4 := by
            simpa [ValueType.isRegular, ValueType.size?] using regular
          have others : size ≠ 1 ∧ size ≠ 2 ∧ size ≠ 3 := ⟨single, pair, triple⟩
          have four : n = 4 := by omega
          have based : b = base := Option.some.inj based
          rw [four, based, float]
        | scalar b =>
          cases sized
          exact absurd rfl single
        | _ => cases sized
      · rfl
  · cases ok

theorem positionsRange {member : String} {l : List Nat} (ok : positions member = .ok l) :
    1 ≤ l.length ∧ l.length ≤ 4 := by
  unfold positions at ok
  dsimp only at ok
  split at ok
  · cases ok
  · rename_i several
    split at ok
    · rename_i found
      cases ok
      obtain ⟨set, _, listed⟩ := List.exists_of_findSome?_eq_some found
      rw [← (ValueType.mapMPaired listed).length_eq]
      simp only [Bool.or_eq_true, List.isEmpty_iff, decide_eq_true_eq, not_or, not_lt] at several
      exact ⟨List.length_pos_iff.mpr several.1, several.2⟩
    · cases ok

theorem openSelectionShaped {member : String} {type : ValueType} (ok : openSelection member = .ok type) :
    ∃ size, (1 ≤ size ∧ size ≤ 4) ∧ type = .shaped .float size := by
  unfold openSelection at ok
  cases placed : positions member with
  | error cause =>
    rw [placed] at ok
    cases ok
  | ok l =>
    rw [placed] at ok
    cases ok
    exact ⟨l.length, positionsRange placed, rfl⟩

/- A scalar is selected as it is, and from anything else one to four components. -/
theorem selectedShaped {member : String} {t type : ValueType} (ok : selectedType member t = .ok type) :
    (t.isScalar = true ∧ type = t) ∨
      (t.isScalar = false ∧ ∃ base size, (1 ≤ size ∧ size ≤ 4) ∧ type = .shaped base size) := by
  unfold selectedType at ok
  cases placed : positions member with
  | error cause =>
    rw [placed] at ok
    cases ok
  | ok l =>
    simp only [placed, okBind] at ok
    split at ok
    · rename_i scalar
      split at ok <;> cases ok
      exact .inl ⟨scalar, rfl⟩
    · rename_i several
      split at ok <;> cases ok
      exact .inr ⟨by simpa using several, _, l.length, positionsRange placed, rfl⟩

theorem selectedScalar {member : String} {t type : ValueType} (ok : selectedType member t = .ok type)
    (scalar : t.isScalar = true) : type = t := by
  rcases selectedShaped ok with ⟨_, same⟩ | ⟨several, _⟩
  · exact same
  · cases scalar.symm.trans several

theorem selectedRegular {member : String} {t type : ValueType} (ok : selectedType member t = .ok type)
    (regular : t.isRegular = true) : type.isRegular = true := by
  rcases selectedShaped ok with ⟨_, rfl⟩ | ⟨_, base, size, range, rfl⟩
  · exact regular
  · exact ValueType.shapedRegular range

theorem textureColor : compileTexture.Ensures (fun _ => True)
    fun c => ∃ text, c = .single "color" (.compound (.vec 4) text) := by
  refine ensuresInput trivial fun e _ => ?_
  dsimp only
  split
  · refine ensuresBind (ensuresNothing _ _) fun sampler _ => ensuresInput ⟨_, rfl⟩ fun e' _ => ?_
    dsimp only
    split
    · exact ⟨_, rfl⟩
    · trivial
  · trivial

theorem textureOffers (ok : compileTexture.follow g = .ok c) (inputs : List (String × ValueType)) :
    Sockets.Offers ⟨inputs, [("color", .vec 4)]⟩ id c := by
  obtain ⟨text, rfl⟩ := followEnsures textureColor (fun _ _ _ => trivial) ok
  exact Sockets.singleOffers rfl rfl

theorem narrowedRanged {s : Signature} (decided : s.isDecided = true) {n : Narrowing}
    (ok : (narrowed s).follow g = .ok n) : n.Ranged := by
  have general : ∀ (rest : List (String × Slot)) (m : Narrowing), m.Ranged →
      (rest.foldlM narrowedBy m).follow g = .ok n → n.Ranged := by
    intro rest
    induction rest with
    | nil =>
      intro m ranged ok
      cases ok
      exact ranged
    | cons p rest ih =>
      intro m ranged ok
      rw [List.foldlM_cons] at ok
      obtain ⟨m', step, ok⟩ := followBindOk ok
      refine ih m' ?_ ok
      obtain ⟨type, _, step⟩ := followBindOk step
      cases type with
      | none =>
        cases step
        exact ranged
      | some type => exact Narrowing.narrowRanged ranged (ofExceptOk.mp step)
  exact general s.parameters (.start s) (Signature.startRanged decided) ok

/- Every argument is of a type that its template is collapsed to, so that its parameter declares one. -/
theorem builtinInputs {s : Signature} {n : Narrowing} {arguments : List String}
    (ok : (s.parameters.mapM fun p => do
      argument s.name p.1 (← ofExcept (n.collapse.resolve p.2)) : Recipe _).follow g = .ok arguments) :
    ∃ inputs, (s.parameters.mapM fun p => do
      return (p.1, ← ofExcept (n.resolve p.2)) : Recipe _).follow g = .ok inputs := by
  rw [followMapM] at ok ⊢
  refine mapMSucceeds fun p member => ?_
  obtain ⟨text, _, written⟩ := ValueType.pairedMember (mapMResults ok).flip member
  obtain ⟨type, collapsed, _⟩ := followBindOk written
  obtain ⟨t, declared, _⟩ := Narrowing.resolveCollapsed (ofExceptOk.mp collapsed)
  exact ⟨(p.1, t), followOn (ofExceptOk.mpr declared) _⟩

theorem builtinOffers {s : Signature} (decided : s.isDecided = true)
    (ok : (compileBuiltin s).follow g = .ok c) :
    ∃ sockets, (builtinSockets s).follow g = .ok sockets ∧ sockets.Offers ValueType.first c := by
  obtain ⟨n, narrowing, ok⟩ := followBindOk ok
  obtain ⟨arguments, written, ok⟩ := followBindOk ok
  obtain ⟨type, collapsed, ok⟩ := followBindOk ok
  cases ok
  have output := (Bool.and_eq_true_iff.mp decided).1
  have collapsed := ofExceptOk.mp collapsed
  have ranged := Narrowing.collapseRanged (narrowedRanged decided narrowing)
  obtain ⟨inputs, listed⟩ := builtinInputs written
  obtain ⟨t, declared, first⟩ := Narrowing.resolveCollapsed collapsed
  refine ⟨⟨inputs, [("out", t)]⟩, ?_, Sockets.singleOffers (first output)
    (Narrowing.resolveRegular ranged output collapsed)⟩
  exact (followOn narrowing _).trans ((followOn listed _).trans (followOn (ofExceptOk.mpr declared) _))

section Surroundings

variable {s : Surroundings}

theorem uniformOffers (known : ∀ id u, s.uniforms.get? id = some u → u.type.isRegular = true)
    {node : Node} {id : String} {type : ValueType} (ok : (uniformOf s node).follow g = .ok (id, type)) :
    Sockets.Offers ⟨[], [("out", type)]⟩ NodeKind.uniform.chosen
      (.single "out" (.simple type (Identifier.uniform id))) := by
  obtain ⟨id', _, ok⟩ := followBindOk ok
  split at ok
  · rename_i u found
    cases ok
    exact Sockets.singleOffers rfl (known _ u found)
  · cases ok

theorem functionOffers
    (known : ∀ name f, s.exports.get? name = some f → ∀ t, f.output = some t → t.isRegular = true)
    {node : Node} (ok : (compileFunction s node).follow g = .ok c) :
    ∃ sockets, (functionSockets s node).follow g = .ok sockets ∧ sockets.Offers id c := by
  obtain ⟨f, named, ok⟩ := followBindOk ok
  have found : ∃ name, s.exports.get? name = some f := by
    obtain ⟨name, _, named⟩ := followBindOk named
    split at named
    · rename_i found
      cases named
      exact ⟨name, found⟩
    · cases named
  obtain ⟨name, found⟩ := found
  obtain ⟨arguments, _, ok⟩ := followBindOk ok
  refine ⟨_, followOn named _, ?_⟩
  cases output : f.output with
  | none =>
    rw [output] at ok
    cases ok
    exact ⟨⟨List.nodup_nil, rfl⟩, List.forall_mem_nil _⟩
  | some type =>
    rw [output] at ok
    cases ok
    exact Sockets.singleOffers rfl (known name f found type output)

end Surroundings

section Fed

variable (fed : ∀ name e, g name = .ok (some e) → e.type.isRegular = true)
include fed

/- Arithmetic is of the type of its first operand. -/
theorem resultOffers {a e : Expression} (told : g "a" = .ok (some a)) (type : a.type = e.type) :
    ∃ type, resultType.follow g = .ok type ∧
      ∀ inputs, Sockets.Offers ⟨inputs, [("out", type)]⟩ id (.single "out" e) := by
  refine ⟨a.type, followOn (inputTypeOk told) _, fun inputs => ?_⟩
  exact Sockets.singleOffers type (type ▸ fed "a" a told)

theorem operatorOffers {op : Operator} {node : Node}
    (ok : (compileOperator op node).follow g = .ok c) : ∃ type, resultType.follow g = .ok type ∧
      ∀ inputs, Sockets.Offers ⟨inputs, [("out", type)]⟩ id c := by
  obtain ⟨a, left, ok⟩ := followBindOk ok
  obtain ⟨b, _, ok⟩ := followBindOk ok
  cases ok
  exact resultOffers fed (operandOk left) rfl

theorem negateOffers {node : Node} (ok : (compileNegate node).follow g = .ok c) :
    ∃ type, resultType.follow g = .ok type ∧
      ∀ inputs, Sockets.Offers ⟨inputs, [("out", type)]⟩ id c := by
  obtain ⟨a, left, ok⟩ := followBindOk ok
  cases ok
  exact resultOffers fed (operandOk left) rfl

theorem sinkOffers (ok : compileSink.follow g = .ok c) (inputs : List (String × ValueType)) :
    Sockets.Offers ⟨inputs, [("color", .vec 4)]⟩ id c := by
  obtain ⟨answer, told, ok⟩ := inputOk ok
  cases answer with
  | none =>
    cases ok
    exact Sockets.singleOffers rfl rfl
  | some e =>
    obtain ⟨d, shown, ok⟩ := followBindOk ok
    cases ok
    have type := displayedType (ofExceptOk.mp shown) (fed "color" e told)
    exact Sockets.singleOffers type.symm (type ▸ rfl)

theorem swizzleOffers {node : Node} (ok : (compileSwizzle node).follow g = .ok c) :
    ∃ s, (swizzleSockets node).follow g = .ok s ∧ s.Offers id c := by
  obtain ⟨member, named, ok⟩ := followBindOk ok
  obtain ⟨answer, told, ok⟩ := inputOk ok
  cases answer with
  | none =>
    obtain ⟨type, opened, ok⟩ := followBindOk ok
    obtain ⟨zero, _, ok⟩ := followBindOk ok
    cases ok
    obtain ⟨size, range, rfl⟩ := openSelectionShaped (ofExceptOk.mp opened)
    refine ⟨⟨[("vector", .anyScalarOrVector)], [("out", .shaped .float size)]⟩, ?_,
      Sockets.singleOffers rfl (ValueType.shapedRegular range)⟩
    exact (followOn named _).trans ((followOn (inputTypeOk told) _).trans (followOn opened _))
  | some e =>
    obtain ⟨type, selected, ok⟩ := followBindOk ok
    have chosen := ofExceptOk.mp selected
    refine ⟨⟨[("vector", .anyScalarOrVector)], [("out", type)]⟩, ?_, ?_⟩
    · exact (followOn named _).trans ((followOn (inputTypeOk told) _).trans (followOn selected _))
    · split at ok
      · rename_i scalar
        cases ok
        exact Sockets.singleOffers (selectedScalar chosen scalar) (fed "vector" e told)
      · cases ok
        exact Sockets.singleOffers rfl (selectedRegular chosen (fed "vector" e told))

def isDecided : NodeKind → Bool
  | compose size => 1 ≤ size && size ≤ 4
  | builtin signature => signature.isDecided
  | _ => true

theorem compileOffers {kind : NodeKind} {s : Surroundings} {node : Node} (decided : kind.isDecided = true)
    (uniforms : ∀ id u, s.uniforms.get? id = some u → u.type.isRegular = true)
    (exports : ∀ name f, s.exports.get? name = some f → ∀ t, f.output = some t → t.isRegular = true)
    (ok : (kind.compile s node).follow g = .ok c) :
    ∃ sockets, (kind.sockets s node).follow g = .ok sockets ∧ sockets.Offers kind.chosen c := by
  cases kind with
  | literal base =>
    obtain ⟨text, _, ok⟩ := followBindOk ok
    cases ok
    exact ⟨_, rfl, Sockets.singleOffers rfl rfl⟩
  | color =>
    obtain ⟨color, _, ok⟩ := followBindOk ok
    cases ok
    exact ⟨_, rfl, Sockets.singleOffers rfl rfl⟩
  | ambient value =>
    cases ok
    exact ⟨_, rfl, Sockets.singleOffers rfl (by cases value <;> rfl)⟩
  | uniform =>
    obtain ⟨⟨id, type⟩, shown, ok⟩ := followBindOk ok
    cases ok
    exact ⟨_, followOn shown _, uniformOffers uniforms shown⟩
  | operator op =>
    obtain ⟨type, result, offers⟩ := operatorOffers fed ok
    exact ⟨_, followOn result _, offers _⟩
  | negate =>
    obtain ⟨type, result, offers⟩ := negateOffers fed ok
    exact ⟨_, followOn result _, offers _⟩
  | cast =>
    obtain ⟨target, aimed, offers⟩ := castOffers ok
    exact ⟨_, followOn aimed _, offers _⟩
  | compose size => exact ⟨_, rfl, composeOffers (by simpa [isDecided] using decided) ok _⟩
  | split => exact splitOffers ok
  | swizzle => exact swizzleOffers fed ok
  | builtin signature => exact builtinOffers decided ok
  | function => exact functionOffers exports ok
  | texture => exact ⟨_, rfl, textureOffers ok _⟩
  | sink label => exact ⟨_, rfl, sinkOffers fed ok _⟩

end Fed
end NodeKind

theorem Registry.standardDecided {type : String} {kind : NodeKind}
    (known : Registry.standard.kind type = .ok kind) : kind.isDecided = true := by
  have each : ∀ entry ∈ standard.entries, entry.2.isDecided = true := by decide +kernel
  exact each (type, kind) (Table.getMember (kindFound.mp known))

end ShaderNet

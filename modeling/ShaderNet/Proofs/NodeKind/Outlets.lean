import ShaderNet.Proofs.NodeKind.Ensures
import ShaderNet.Proofs.NodeKind.Offered

/-! Orders of outputs. Every kind of node declares its outputs in an order of its own, and what it comes to
is listed by name. The two begin with the same output unless all four components of a vector are there:
the last of them comes before the others by name. -/
namespace ShaderNet

theorem Table.namedEntries (names : List String) {α : Type} (f : String → α) :
    (Table.ofList (names.map fun name => (name, f name))).entries =
      (KeySet.ofList names).keys.map fun name => (name, f name) := by
  have same : Table.ofList (names.map fun name => (name, f name)) =
      (KeySet.ofList names).mapValues fun name _ => f name := by
    refine Table.ext fun name => ?_
    have listed := @KeySet.containsOfList String _ _ _ _ names name
    rw [Table.getOfKeys, Table.getMapValues]
    cases found : (KeySet.ofList names).get? name with
    | none => simpa [Table.contains, found] using listed
    | some v => simpa [Table.contains, found] using listed
  rw [same]
  simp [Table.mapValues, Table.keys, Function.comp_def]

namespace NodeKind
open Recipe

def outlets : NodeKind → List String
  | split => components
  | texture | sink _ => ["color"]
  | _ => ["out"]

def Quartered (outputs : Table String Expression) : Prop :=
  ∃ component whole, ∀ name ∈ components,
    outputs.get? name = some (.simple component (selectFrom whole name))

/-- What nodes of a kind come to: nothing, the first of their outputs, or components of a vector, which are
all zero as long as there is no vector. -/
inductive Outlets : NodeKind → Table String Expression → Prop
  | nothing (kind : NodeKind) : Outlets kind ∅
  | one {kind name} (first : kind.outlets.head? = some name) (e : Expression) :
      Outlets kind (Table.ofList [(name, e)])
  | zeros : Outlets .split (Table.ofList (components.map fun name => (name, .simple .float "0.0")))
  | parts (size : Nat) (component : ValueType) (whole : Expression) : Outlets .split
      (Table.ofList ((components.take size).map fun name =>
        (name, .simple component (selectFrom whole name))))

/-! What recipes come to -/

theorem eachOutputs (names : List String) (f : String → Expression) (c : Compiled) :
    (names.foldl (fun c name => c.withOutput name (f name)) c).outputs =
      c.outputs.overlay (names.map fun name => (name, f name)) := by
  induction names generalizing c with
  | nil => rfl
  | cons name rest ih => exact ih (c.withOutput name (f name))

variable {g : String → Except Failure (Option Expression)} {c : Compiled}

/- Either a scalar, which is its only component, or the components of a vector. -/
theorem splitOutlets {node : Node} {e : Expression} (splits : Splits node e c) :
    ∃ size, e.type.size? = some size ∧
      ((size = 1 ∧ ∃ d, c.outputs = Table.ofList [("x", d)]) ∨
        ∃ component whole, c.outputs = Table.ofList ((components.take size).map fun name =>
          (name, .simple component (selectFrom whole name)))) := by
  have bare := (hoistTypes (Identifier.binding node.id "vector") e).1
  cases splits with
  | @scalar size component sized parted scalar =>
    refine ⟨size, sized, .inl ⟨(ValueType.scalarParts scalar sized parted).1,
      (Compiled.empty.hoist (Identifier.binding node.id "vector") e).2, ?_⟩⟩
    rw [Compiled.withOutput, bare]
    rfl
  | @vector size component sized parted _ _ =>
    refine ⟨size, sized, .inr ⟨component,
      (Compiled.empty.hoist (Identifier.binding node.id "vector") e).2, ?_⟩⟩
    rw [eachOutputs, bare]
    rfl

theorem compileOutlets (kind : NodeKind) (s : Surroundings) (node : Node) :
    (kind.compile s node).Ensures (fun _ => True) fun c => kind.Outlets c.outputs := by
  have one {kind : NodeKind} {name : String} (first : kind.outlets.head? = some name) (e : Expression) :
      kind.Outlets (Compiled.single name e).outputs := .one first e
  cases kind with
  | literal base => exact ensuresBind (ensuresNothing _ _) fun text _ => one rfl _
  | color => exact ensuresBind (ensuresNothing _ _) fun c _ => one rfl _
  | ambient value => exact one rfl _
  | uniform => exact ensuresBind (ensuresNothing _ _) fun u _ => one rfl _
  | operator op =>
    exact ensuresBind (ensuresNothing _ _) fun a _ => ensuresBind (ensuresNothing _ _) fun b _ => one rfl _
  | negate => exact ensuresBind (ensuresNothing _ _) fun a _ => one rfl _
  | cast =>
    refine ensuresBind (ensuresNothing _ _) fun target _ => ensuresInput ?_ fun e _ => ?_
    · exact ensuresBind (ensuresNothing _ _) fun zero _ => one rfl _
    · exact ensuresBind (ensuresNothing _ _) fun d _ => one rfl _
  | compose size => exact ensuresBind (ensuresNothing _ _) fun parts _ => one rfl _
  | split =>
    refine ensuresInput ?_ fun e _ => ensuresSplitParts fun c splits => ?_
    · change NodeKind.split.Outlets _
      rw [eachOutputs]
      exact .zeros
    · obtain ⟨size, _, ⟨_, d, same⟩ | ⟨component, whole, same⟩⟩ := splitOutlets splits
      · exact same ▸ .one rfl d
      · exact same ▸ .parts size component whole
  | swizzle =>
    refine ensuresBind (ensuresNothing _ _) fun member _ => ensuresInput ?_ fun e _ => ?_
    · refine ensuresBind (ensuresNothing _ _) fun type _ => ?_
      exact ensuresBind (ensuresNothing _ _) fun zero _ => one rfl _
    · refine ensuresBind (ensuresNothing _ _) fun type _ => ?_
      dsimp only
      split <;> exact one rfl _
  | builtin signature =>
    refine ensuresBind (ensuresNothing _ _) fun n _ => ensuresBind (ensuresNothing _ _) fun texts _ => ?_
    exact ensuresBind (ensuresNothing _ _) fun type _ => one rfl _
  | function =>
    refine ensuresBind (ensuresNothing _ _) fun f _ => ensuresBind (ensuresNothing _ _) fun texts _ => ?_
    split
    · exact .nothing _
    · exact one rfl _
  | texture =>
    refine ensuresMono textureColor ?_
    rintro c ⟨text, rfl⟩
    exact one rfl _
  | sink label =>
    refine ensuresInput (one rfl _) fun e _ => ?_
    exact ensuresBind (ensuresNothing _ _) fun d _ => one rfl _

/-! What is declared -/

/- A node declares the first few of the outputs that it may have. -/
theorem socketsOutlets (kind : NodeKind) (s : Surroundings) (node : Node) :
    (kind.sockets s node).Ensures (fun _ => True) fun sockets =>
      sockets.outputs.map Prod.fst <+: kind.outlets := by
  have all (names : List String) : names <+: names := List.prefix_refl names
  cases kind with
  | uniform => exact ensuresBind (ensuresNothing _ _) fun u _ => all _
  | operator op => exact ensuresBind (ensuresNothing _ _) fun type _ => all _
  | negate => exact ensuresBind (ensuresNothing _ _) fun type _ => all _
  | cast => exact ensuresBind (ensuresNothing _ _) fun type _ => all _
  | split =>
    refine ensuresBind (ensuresNothing _ _) fun type _ => ?_
    cases type with
    | none => exact all _
    | some type =>
      refine ensuresBind (ensuresNothing _ _) fun component _ => ?_
      refine ensuresBind (ensuresSlice _) fun names listed => ?_
      cases listed
      change List.map _ (List.map _ _) <+: components
      simp only [List.map_map, Function.comp_def, List.map_id']
      exact List.take_prefix _ _
  | swizzle =>
    refine ensuresBind (ensuresNothing _ _) fun member _ => ensuresBind (ensuresNothing _ _) fun e _ => ?_
    dsimp only
    split <;> exact ensuresBind (ensuresNothing _ _) fun type _ => all _
  | builtin signature =>
    refine ensuresBind (ensuresNothing _ _) fun n _ => ensuresBind (ensuresNothing _ _) fun inputs _ => ?_
    exact ensuresBind (ensuresNothing _ _) fun type _ => all _
  | function =>
    refine ensuresBind (ensuresNothing _ _) fun f _ => ?_
    change List.map _ (f.output.toList.map _) <+: ["out"]
    cases f.output with
    | none => exact List.nil_prefix
    | some type => exact all _
  | _ => exact all _

theorem declaresNothing {sockets : Sockets} {chosen : ValueType → ValueType}
    (declares : sockets.Declares chosen c) (none : sockets.outputs = []) : c.outputs = ∅ := by
  refine Table.ext fun name => ?_
  have listed := congrArg (Table.get? · name) declares.types
  simp only [none, Table.getMapValues] at listed
  exact Option.map_eq_none_iff.mp listed.symm

/- Whatever compiles declares an output if it comes to one. -/
theorem compileDeclares {kind : NodeKind} {s : Surroundings} {node : Node}
    (decided : kind.isDecided = true) (ok : (kind.compile s node).follow g = .ok c) :
    ∃ sockets, (kind.sockets s node).follow g = .ok sockets ∧ (sockets.outputs = [] → c.outputs = ∅) := by
  have some {name : String} {type : ValueType} {inputs : List (String × ValueType)} :
      (Sockets.mk inputs [(name, type)]).outputs = [] → c.outputs = ∅ :=
    fun none => absurd none (List.cons_ne_nil _ _)
  cases kind with
  | uniform =>
    obtain ⟨u, shown, _⟩ := followBindOk ok
    exact ⟨_, followOn shown _, some⟩
  | operator op =>
    obtain ⟨a, left, _⟩ := followBindOk ok
    exact ⟨_, followOn (followOn (inputTypeOk (operandOk left)) _) _, some⟩
  | negate =>
    obtain ⟨a, left, _⟩ := followBindOk ok
    exact ⟨_, followOn (followOn (inputTypeOk (operandOk left)) _) _, some⟩
  | cast =>
    obtain ⟨target, aimed, _⟩ := followBindOk ok
    exact ⟨_, followOn aimed _, some⟩
  | split =>
    obtain ⟨sockets, declared, offers⟩ := splitOffers ok
    exact ⟨sockets, declared, declaresNothing offers.toDeclares⟩
  | swizzle =>
    obtain ⟨member, named, ok⟩ := followBindOk ok
    obtain ⟨answer, told, ok⟩ := inputOk ok
    cases answer with
    | none =>
      obtain ⟨type, opened, _⟩ := followBindOk ok
      refine ⟨⟨[("vector", .anyScalarOrVector)], [("out", type)]⟩, ?_, some⟩
      exact (followOn named _).trans ((followOn (inputTypeOk told) _).trans (followOn opened _))
    | some e =>
      obtain ⟨type, selected, _⟩ := followBindOk ok
      refine ⟨⟨[("vector", .anyScalarOrVector)], [("out", type)]⟩, ?_, some⟩
      exact (followOn named _).trans ((followOn (inputTypeOk told) _).trans (followOn selected _))
  | builtin signature =>
    obtain ⟨sockets, declared, offers⟩ := builtinOffers decided ok
    exact ⟨sockets, declared, declaresNothing offers.toDeclares⟩
  | function =>
    obtain ⟨f, named, ok⟩ := followBindOk ok
    obtain ⟨arguments, _, ok⟩ := followBindOk ok
    refine ⟨_, followOn named _, fun none => ?_⟩
    cases output : f.output with
    | none =>
      rw [output] at ok
      cases ok
      rfl
    | some type =>
      rw [output] at none
      cases none
  | _ => exact ⟨_, rfl, some⟩

/-! The least output -/

theorem quarterEntries (f : String → Expression) :
    (Table.ofList (components.map fun name => (name, f name))).entries =
      ["w", "x", "y", "z"].map fun name => (name, f name) := by
  have sorted : (KeySet.ofList components).keys = ["w", "x", "y", "z"] := by decide
  rw [Table.namedEntries, sorted]

theorem partEntries (f : String → Expression) {size : Nat} (few : size < 4) :
    (Table.ofList ((components.take size).map fun name => (name, f name))).entries =
      (components.take size).map fun name => (name, f name) := by
  have sorted : ∀ size < 4, (KeySet.ofList (components.take size)).keys = components.take size := by decide
  rw [Table.namedEntries, sorted size few]

theorem allComponents {size : Nat} (all : 4 ≤ size) : components.take size = components :=
  List.take_of_length_le all

/- Selections differ from each other. -/
theorem selectFromInj {whole : Expression} {a b : String} (same : selectFrom whole a = selectFrom whole b) :
    a = b := by
  have chars := congrArg String.toList same
  simpa [selectFrom, String.toList_append, String.toList_inj] using chars

theorem Quartered.different {outputs : Table String Expression} (quartered : Quartered outputs) :
    ∃ d e, outputs.get? "w" = some d ∧ outputs.get? "x" = some e ∧ d.type = e.type ∧ d.text ≠ e.text := by
  obtain ⟨component, whole, each⟩ := quartered
  refine ⟨_, _, each "w" (by decide), each "x" (by decide), rfl, fun same => ?_⟩
  exact absurd (selectFromInj same) (by decide)

/- Where vectors are taken apart, the components are those of one that has four of them. -/
theorem partsQuartered {size : Nat} {component : ValueType} {whole : Expression} :
    Quartered (Table.ofList ((components.take size).map fun name =>
      (name, .simple component (selectFrom whole name)))) ↔ 4 ≤ size := by
  constructor
  · rintro ⟨_, _, each⟩
    by_contra few
    have last := each "w" (by decide)
    rw [Table.getOfKeys, if_neg ?_] at last
    · cases last
    · have absent : ∀ size < 4, "w" ∉ components.take size := by decide
      exact absent size (by omega)
  · intro all
    refine ⟨component, whole, fun name listed => ?_⟩
    rw [allComponents all, Table.getOfKeys, if_pos listed]

theorem oneUnquartered {name : String} {e : Expression} : ¬ Quartered (Table.ofList [(name, e)]) := by
  rintro ⟨_, _, each⟩
  have inside : ∀ other ∈ components, other = name := fun other listed => by
    cases List.mem_singleton.mp (Table.getOfListMember (each other listed))
    rfl
  exact absurd ((inside "x" (by decide)).trans (inside "w" (by decide)).symm) (by decide)

theorem splitQuartered {node : Node} {e : Expression} (splits : Splits node e c) :
    Quartered c.outputs ↔ ∃ size, e.type.size? = some size ∧ 4 ≤ size := by
  obtain ⟨size, sized, ⟨single, d, same⟩ | ⟨component, whole, same⟩⟩ := splitOutlets splits
  · refine ⟨fun quartered => absurd (same ▸ quartered) oneUnquartered, ?_⟩
    rintro ⟨_, sized', all⟩
    cases sized.symm.trans sized'
    omega
  · rw [same, partsQuartered]
    refine ⟨fun all => ⟨size, sized, all⟩, ?_⟩
    rintro ⟨_, sized', all⟩
    cases sized.symm.trans sized'
    exact all

theorem zerosUnquartered :
    ¬ Quartered (Table.ofList (components.map fun name => (name, .simple .float "0.0"))) := by
  intro quartered
  obtain ⟨d, e, last, first, _, differ⟩ := quartered.different
  rw [Table.getOfKeys, if_pos (by decide)] at last first
  cases last
  cases first
  exact differ rfl

/- Only vectors are taken apart. -/
theorem Outlets.quartered {kind : NodeKind} {outputs : Table String Expression}
    (outlets : kind.Outlets outputs) (quartered : Quartered outputs) : kind = .split := by
  cases outlets with
  | nothing =>
    obtain ⟨d, e, impossible, _⟩ := quartered.different
    cases impossible
  | one named d => exact absurd quartered oneUnquartered
  | zeros => rfl
  | parts size component whole => rfl

/- What comes first by name against what is declared first. -/
theorem Outlets.least {kind : NodeKind} {outputs : Table String Expression} (outlets : kind.Outlets outputs)
    {least first : String} {e : Expression} (head : outputs.entries.head? = some (least, e))
    (lead : kind.outlets.head? = some first) :
    (least = first ∧ outputs.get? first = some e ∧ ¬ Quartered outputs) ∨
      (least = "w" ∧ first = "x" ∧
        (outputs.get? first = some e ∧ ¬ Quartered outputs ∨ Quartered outputs)) := by
  cases outlets with
  | nothing => cases head
  | one named d =>
    cases named.symm.trans lead
    cases head
    exact .inl ⟨rfl, by simp [Table.ofList, Table.overlay, Table.getInsert], oneUnquartered⟩
  | zeros =>
    rw [quarterEntries] at head
    cases head
    cases lead
    refine .inr ⟨rfl, rfl, .inl ⟨?_, zerosUnquartered⟩⟩
    rw [Table.getOfKeys, if_pos (by decide)]
  | parts size component whole =>
    cases lead
    by_cases all : 4 ≤ size
    · refine .inr ⟨?_, rfl, .inr (partsQuartered.mpr all)⟩
      rw [allComponents all, quarterEntries] at head
      cases head
      rfl
    · rw [partEntries _ (by omega)] at head
      cases size with
      | zero => cases head
      | succ size =>
        cases head
        have inside : "x" ∈ components.take (size + 1) := List.mem_cons_self
        refine .inl ⟨rfl, ?_, fun quartered => all (partsQuartered.mp quartered)⟩
        rw [Table.getOfKeys, if_pos inside]

end NodeKind
end ShaderNet

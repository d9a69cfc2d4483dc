import ShaderNet.Proofs.Table
import ShaderNet.Proofs.ValueType.Alternatives
import ShaderNet.Template.Basic

/-! Narrowing against what it stands for. An instance of a signature fixes one base and one size for
every template, and with them the types that each slot may take. Narrowing keeps for each template
exactly the choices of the instances that agree with all that is connected. -/
namespace ShaderNet

structure Shape where
  base : Scalar
  size : Nat
  deriving DecidableEq, Repr

abbrev Instance := String → Shape

namespace Role

def Takes (role : Role) (shape : Shape) (type : ValueType) : Prop :=
  match role with
  | whole => type = .shaped shape.base shape.size
  | component => type = .scalar shape.base
  | wholeOrComponent => type = .shaped shape.base shape.size ∨ type = .scalar shape.base
  | boolShaped => type = .shaped .bool shape.size

end Role

namespace Constraint

def Allows (c : Constraint) (shape : Shape) : Prop := shape.base ∈ c.bases ∧ shape.size ∈ c.sizes

structure Sane (c : Constraint) : Prop where
  bases : c.bases ≠ []
  sizes : c.sizes ≠ []
  range : ∀ n ∈ c.sizes, 1 ≤ n ∧ n ≤ 4

theorem isEmptyFalse {c : Constraint} : c.isEmpty = false ↔ ∃ shape, c.Allows shape := by
  obtain ⟨bases, sizes⟩ := c
  cases bases with
  | nil => simp [isEmpty, Allows]
  | cons base bases =>
    cases sizes with
    | nil => simp [isEmpty, Allows]
    | cons size sizes =>
      exact ⟨fun _ => ⟨⟨base, size⟩, List.mem_cons_self, List.mem_cons_self⟩, fun _ => rfl⟩

theorem saneIff {c : Constraint} :
    c.Sane ↔ c.isEmpty = false ∧ ∀ n ∈ c.sizes, 1 ≤ n ∧ n ≤ 4 := by
  refine ⟨fun sane => ⟨?_, sane.range⟩, fun ⟨left, range⟩ => ⟨?_, ?_, range⟩⟩
  · simp [isEmpty, sane.bases, sane.sizes]
  · intro none
    simp [isEmpty, none] at left
  · intro none
    simp [isEmpty, none] at left

theorem intersectAllows {c d : Constraint} {shape : Shape} :
    (c.intersect d).Allows shape ↔ c.Allows shape ∧ d.Allows shape := by
  simp only [intersect, Allows, List.mem_filter, decide_eq_true_eq]
  exact and_and_and_comm

end Constraint

namespace Role

/- What a connected type tells of the template is what the template needs to take that type. -/
theorem admitsIff {role : Role} {type : ValueType} (concrete : type.isShape = true) {shape : Shape}
    (range : 1 ≤ shape.size ∧ shape.size ≤ 4) :
    (role.admits type).Allows shape ↔ role.Takes shape type := by
  obtain ⟨base, size⟩ := shape
  have anySize : size ∈ allSizes := by
    simp only [allSizes, List.mem_cons, List.not_mem_nil, or_false]
    dsimp only at range
    omega
  have anyBase : base ∈ Scalar.all := by cases base <;> decide
  cases type with
  | scalar b =>
    cases role with
    | whole => simp [admits, Takes, ValueType.base?, ValueType.size?, Constraint.Allows,
        ValueType.scalarShaped]
    | component => simp [admits, Takes, ValueType.base?, ValueType.size?, Constraint.Allows, anySize,
        eq_comm]
    | wholeOrComponent =>
      simp only [admits, Takes, ValueType.base?, ValueType.size?, Constraint.Allows, anySize,
        ValueType.scalarShaped, List.mem_singleton, if_true, and_true, ValueType.scalar.injEq]
      exact ⟨fun same => .inr same.symm, fun takes => takes.elim And.left Eq.symm⟩
    | boolShaped =>
      simp only [admits, Takes, ValueType.base?, ValueType.size?, Constraint.Allows,
        ValueType.scalarShaped]
      split
      · rename_i bool
        simp [bool, anyBase]
      · rename_i other
        simp [Constraint.none, Ne.symm other]
  | vector b n =>
    have several : n ≠ 1 := by
      simp only [ValueType.isShape, Bool.and_eq_true, decide_eq_true_eq] at concrete
      omega
    cases role with
    | whole => simp [admits, Takes, ValueType.base?, ValueType.size?, Constraint.Allows,
        ValueType.vectorShaped several]
    | component => simp [admits, Takes, ValueType.base?, ValueType.size?, Constraint.Allows,
        Constraint.none, several]
    | wholeOrComponent => simp [admits, Takes, ValueType.base?, ValueType.size?, Constraint.Allows,
        ValueType.vectorShaped several, several]
    | boolShaped =>
      simp only [admits, Takes, ValueType.base?, ValueType.size?, Constraint.Allows,
        ValueType.vectorShaped several]
      split
      · rename_i bool
        simp [bool, anyBase]
      · rename_i other
        simp [Constraint.none, Ne.symm other]
  | _ => cases concrete

theorem admitsAnyShape {role : Role} {type : ValueType} (concrete : type.isShape = true) :
    role.admitsAny type = role.admits type := by
  simp [admitsAny, ValueType.alternativesSelf (ValueType.shapePlain concrete)]

theorem takesPlain {role : Role} {shape : Shape} {type : ValueType} (takes : role.Takes shape type) :
    type.isVariant = false ∧ type ≠ .broken := by
  have shaped : ∀ base size, (ValueType.shaped base size).isVariant = false ∧
      ValueType.shaped base size ≠ .broken :=
    fun base size => ⟨ValueType.shapedPlain base size, ValueType.shapedSane base size⟩
  cases role with
  | whole => exact takes ▸ shaped _ _
  | component => exact takes ▸ ⟨rfl, by simp⟩
  | wholeOrComponent =>
    rcases takes with whole | component
    · exact whole ▸ shaped _ _
    · exact component ▸ ⟨rfl, by simp⟩
  | boolShaped => exact takes ▸ shaped _ _

theorem typesListed (role : Role) {c : Constraint} (left : c.isEmpty = false) :
    ∃ ts, role.types c = .oneOf ts ∧
      ∀ type, type ∈ ts ↔ ∃ shape, c.Allows shape ∧ role.Takes shape type := by
  obtain ⟨⟨base, size⟩, inBases, inSizes⟩ := Constraint.isEmptyFalse.mp left
  cases role with
  | whole =>
    refine ⟨_, rfl, fun type => ?_⟩
    simp only [List.mem_flatMap, List.mem_map, Constraint.Allows, Takes]
    constructor
    · rintro ⟨b, inB, n, inN, rfl⟩
      exact ⟨⟨b, n⟩, ⟨inB, inN⟩, rfl⟩
    · rintro ⟨⟨b, n⟩, ⟨inB, inN⟩, rfl⟩
      exact ⟨b, inB, n, inN, rfl⟩
  | component =>
    refine ⟨_, rfl, fun type => ?_⟩
    simp only [List.mem_map, Constraint.Allows, Takes]
    constructor
    · rintro ⟨b, inB, rfl⟩
      exact ⟨⟨b, size⟩, ⟨inB, inSizes⟩, rfl⟩
    · rintro ⟨⟨b, n⟩, ⟨inB, _⟩, rfl⟩
      exact ⟨b, inB, rfl⟩
  | wholeOrComponent =>
    refine ⟨_, rfl, fun type => ?_⟩
    simp only [List.mem_flatMap, List.mem_append, List.mem_map, List.mem_singleton,
      Constraint.Allows, Takes]
    constructor
    · rintro ⟨b, inB, ⟨n, inN, rfl⟩ | rfl⟩
      · exact ⟨⟨b, n⟩, ⟨inB, inN⟩, .inl rfl⟩
      · exact ⟨⟨b, size⟩, ⟨inB, inSizes⟩, .inr rfl⟩
    · rintro ⟨⟨b, n⟩, ⟨inB, inN⟩, rfl | rfl⟩
      · exact ⟨b, inB, .inl ⟨n, inN, rfl⟩⟩
      · exact ⟨b, inB, .inr rfl⟩
  | boolShaped =>
    refine ⟨_, rfl, fun type => ?_⟩
    simp only [List.mem_map, Constraint.Allows, Takes]
    constructor
    · rintro ⟨n, inN, rfl⟩
      exact ⟨⟨base, n⟩, ⟨inBases, inN⟩, rfl⟩
    · rintro ⟨⟨b, n⟩, ⟨_, inN⟩, rfl⟩
      exact ⟨n, inN, rfl⟩

theorem takesSome (role : Role) (shape : Shape) : ∃ type, role.Takes shape type := by
  cases role with
  | whole => exact ⟨_, rfl⟩
  | component => exact ⟨_, rfl⟩
  | wholeOrComponent => exact ⟨_, .inl rfl⟩
  | boolShaped => exact ⟨_, rfl⟩

theorem typesIff (role : Role) {c : Constraint} (left : c.isEmpty = false) :
    role.types c ≠ .broken ∧ ∀ type, type ∈ (role.types c).alternatives ↔
      ∃ shape, c.Allows shape ∧ role.Takes shape type := by
  obtain ⟨ts, same, listed⟩ := typesListed role left
  have plain : ∀ t ∈ ts, t.isVariant = false ∧ t ≠ .broken := fun t member =>
    have ⟨_, _, takes⟩ := (listed t).mp member
    takesPlain takes
  have inhabited : ts ≠ [] := by
    obtain ⟨shape, allowed⟩ := Constraint.isEmptyFalse.mp left
    obtain ⟨type, takes⟩ := role.takesSome shape
    exact List.ne_nil_of_mem ((listed type).mpr ⟨shape, allowed, takes⟩)
  rw [same]
  refine ⟨ValueType.oneOfBroken (fun t member => (plain t member).1) inhabited ?_, fun type => ?_⟩
  · exact fun broken => (plain _ broken).2 rfl
  · rw [ValueType.memOneOf (fun t member => (plain t member).1) inhabited, listed]

end Role

namespace Slot

def isTemplate : Slot → Bool
  | fixed _ => false
  | template _ _ => true

def Takes (i : Instance) : Slot → ValueType → Prop
  | fixed type, t => t ∈ type.alternatives
  | template name role, t => role.Takes (i name) t

def Tells (i : Instance) : Slot → ValueType → Prop
  | fixed _, _ => True
  | template name role, t => (role.admitsAny t).Allows (i name)

theorem tellsIff {slot : Slot} {i : Instance} {type : ValueType} (concrete : type.isShape = true)
    (range : ∀ name role, slot = .template name role → 1 ≤ (i name).size ∧ (i name).size ≤ 4) :
    slot.Tells i type ↔ (slot.isTemplate = true → slot.Takes i type) := by
  cases slot with
  | fixed t => simp [Tells, isTemplate]
  | template name role =>
    rw [Tells, Role.admitsAnyShape concrete, Role.admitsIff concrete (range name role rfl)]
    simp [isTemplate, Takes]

end Slot

namespace Signature

def slots (s : Signature) : List Slot := s.output :: s.parameters.map Prod.snd

def Grounded (s : Signature) : Prop :=
  ∀ name role, .template name role ∈ s.slots → ∃ c, s.templates.get? name = some c ∧ c.Sane

def Allows (s : Signature) (i : Instance) : Prop :=
  ∀ name role, .template name role ∈ s.slots →
    ∃ c, s.templates.get? name = some c ∧ c.Allows (i name)

end Signature

/-- The instance gives each template slot the type connected to it. -/
def Instance.Fits (i : Instance) (assigned : List (Slot × ValueType)) : Prop :=
  ∀ p ∈ assigned, p.1.isTemplate = true → p.1.Takes i p.2

def Instance.Heeds (i : Instance) (assigned : List (Slot × ValueType)) : Prop :=
  ∀ p ∈ assigned, p.1.Tells i p.2

namespace Narrowing

def narrowAll (n : Narrowing) (assigned : List (Slot × ValueType)) : Except Unsupported Narrowing :=
  assigned.foldlM (fun n p => n.narrow p.1 p.2) n

def Grounded (n : Narrowing) : Prop :=
  ∀ name role, .template name role ∈ n.signature.slots →
    ∃ c, n.constraints.get? name = some c ∧ c.Sane

def Allows (n : Narrowing) (i : Instance) : Prop :=
  ∀ name role, .template name role ∈ n.signature.slots →
    ∃ c, n.constraints.get? name = some c ∧ c.Allows (i name)

/- Where every template is left a choice, any choice for one of them is part of an instance. -/
theorem Grounded.allows {n : Narrowing} (grounded : n.Grounded) : ∃ i, n.Allows i := by
  have choose : ∀ name, ∃ shape : Shape, ∀ role, .template name role ∈ n.signature.slots →
      ∃ c, n.constraints.get? name = some c ∧ c.Allows shape := by
    intro name
    by_cases named : ∃ role, .template name role ∈ n.signature.slots
    · obtain ⟨role, member⟩ := named
      obtain ⟨c, found, sane⟩ := grounded name role member
      obtain ⟨shape, allowed⟩ := Constraint.isEmptyFalse.mp (Constraint.saneIff.mp sane).1
      exact ⟨shape, fun _ _ => ⟨c, found, allowed⟩⟩
    · exact ⟨⟨.float, 1⟩, fun role member => absurd ⟨role, member⟩ named⟩
  exact ⟨fun name => (choose name).choose, fun name => (choose name).choose_spec⟩

theorem Grounded.allowsAt {n : Narrowing} (grounded : n.Grounded) {name : String} {c : Constraint}
    (found : n.constraints.get? name = some c) {shape : Shape} (allowed : c.Allows shape) :
    ∃ i, n.Allows i ∧ i name = shape := by
  obtain ⟨i, others⟩ := grounded.allows
  refine ⟨fun k => if k = name then shape else i k, fun k role member => ?_, if_pos rfl⟩
  dsimp only
  split
  · rename_i same
    exact ⟨c, same ▸ found, allowed⟩
  · exact others k role member

theorem Grounded.range {n : Narrowing} (grounded : n.Grounded) {i : Instance} (inside : n.Allows i)
    {name : String} {role : Role} (member : .template name role ∈ n.signature.slots) :
    1 ≤ (i name).size ∧ (i name).size ≤ 4 := by
  obtain ⟨c, found, sane⟩ := grounded name role member
  obtain ⟨d, before, chosen⟩ := inside name role member
  cases found.symm.trans before
  exact sane.range _ chosen.2

def replace (n : Narrowing) (name : String) (c : Constraint) : Narrowing :=
  { n with constraints := n.constraints.insert name c }

theorem Grounded.replace {n : Narrowing} (grounded : n.Grounded) (name : String) {c : Constraint}
    (sane : c.Sane) : (n.replace name c).Grounded := by
  intro k role member
  rw [Narrowing.replace, Table.getInsert]
  split
  · exact ⟨c, rfl, sane⟩
  · exact grounded k role member

theorem replaceAllows {n : Narrowing} {name : String} {role : Role} {c left : Constraint}
    (member : .template name role ∈ n.signature.slots) (found : n.constraints.get? name = some c)
    {takes : Shape → Prop} (fewer : ∀ shape, left.Allows shape ↔ c.Allows shape ∧ takes shape)
    (i : Instance) : (n.replace name left).Allows i ↔ n.Allows i ∧ takes (i name) := by
  have others : ∀ k, name ≠ k → (n.replace name left).constraints.get? k = n.constraints.get? k :=
    fun k other => (Table.getInsert ..).trans (if_neg other)
  have here : (n.replace name left).constraints.get? name = some left :=
    (Table.getInsert ..).trans (if_pos rfl)
  constructor
  · intro inside
    obtain ⟨_, now, chosen⟩ := inside name role member
    cases here.symm.trans now
    obtain ⟨before, taken⟩ := (fewer _).mp chosen
    refine ⟨fun k r listed => ?_, taken⟩
    by_cases same : name = k
    · exact same ▸ ⟨c, found, before⟩
    · rw [← others k same]
      exact inside k r listed
  · rintro ⟨inside, taken⟩ k r listed
    by_cases same : name = k
    · subst same
      obtain ⟨d, before, chosen⟩ := inside name r listed
      cases found.symm.trans before
      exact ⟨left, here, (fewer _).mpr ⟨chosen, taken⟩⟩
    · rw [others k same]
      exact inside k r listed

/- One step: the choices left are those of before that the connected type tells of. -/
theorem narrowTemplate (n : Narrowing) {name : String} (role : Role) (type : ValueType)
    {c : Constraint} (found : n.constraints.get? name = some c) (sane : c.Sane) :
    (∃ left : Constraint,
      (∀ shape, left.Allows shape ↔ c.Allows shape ∧ (role.admitsAny type).Allows shape) ∧
      left.Sane ∧ n.narrow (.template name role) type = .ok (n.replace name left)) ∨
    ((∀ shape, c.Allows shape → ¬ (role.admitsAny type).Allows shape) ∧
      ∃ e, n.narrow (.template name role) type = .error e) := by
  cases left : (c.intersect (role.admitsAny type)).isEmpty with
  | false =>
    refine .inl ⟨_, fun shape => Constraint.intersectAllows,
      Constraint.saneIff.mpr ⟨left, fun size member => ?_⟩, ?_⟩
    · exact sane.range size (List.mem_filter.mp member).1
    · simp [narrow, constraintOf, found, left, bind, Except.bind, replace]
  | true =>
    refine .inr ⟨fun shape inside told => ?_, .templateMismatch type name n.signature.text, ?_⟩
    · have other := Constraint.isEmptyFalse.mpr ⟨shape, Constraint.intersectAllows.mpr ⟨inside, told⟩⟩
      rw [left] at other
      cases other
    · simp [narrow, constraintOf, found, left, bind, Except.bind]

theorem narrowAfter {n m : Narrowing} (grounded : n.Grounded) {slot : Slot} {type : ValueType}
    (member : slot ∈ n.signature.slots) (ok : n.narrow slot type = .ok m) :
    m.signature = n.signature ∧ m.Grounded ∧ ∀ i, m.Allows i ↔ n.Allows i ∧ slot.Tells i type := by
  cases slot with
  | fixed t =>
    cases ok
    exact ⟨rfl, grounded, fun i => by simp [Slot.Tells]⟩
  | template name role =>
    obtain ⟨c, found, sane⟩ := grounded name role member
    rcases narrowTemplate n role type found sane with
      ⟨left, allowed, leftSane, narrowed⟩ | ⟨_, e, refused⟩
    · rw [narrowed] at ok
      cases ok
      exact ⟨rfl, grounded.replace name leftSane, replaceAllows member found allowed⟩
    · rw [refused] at ok
      cases ok

theorem narrowSucceeds {n : Narrowing} (grounded : n.Grounded) {slot : Slot} {type : ValueType}
    (member : slot ∈ n.signature.slots) {i : Instance} (inside : n.Allows i)
    (tells : slot.Tells i type) : ∃ m, n.narrow slot type = .ok m := by
  cases slot with
  | fixed t => exact ⟨n, rfl⟩
  | template name role =>
    obtain ⟨c, found, sane⟩ := grounded name role member
    obtain ⟨d, before, chosen⟩ := inside name role member
    cases found.symm.trans before
    rcases narrowTemplate n role type found sane with ⟨_, _, _, narrowed⟩ | ⟨none, _⟩
    · exact ⟨_, narrowed⟩
    · exact absurd tells (none _ chosen)

section All

variable {assigned : List (Slot × ValueType)}

theorem narrowAllTells {n m : Narrowing} (grounded : n.Grounded)
    (within : ∀ p ∈ assigned, p.1 ∈ n.signature.slots) (ok : n.narrowAll assigned = .ok m) :
    m.signature = n.signature ∧ m.Grounded ∧ ∀ i, m.Allows i ↔ n.Allows i ∧ i.Heeds assigned := by
  induction assigned generalizing n with
  | nil =>
    cases ok
    exact ⟨rfl, grounded, fun i => by simp [Instance.Heeds]⟩
  | cons p rest ih =>
    simp only [narrowAll, List.foldlM_cons, bind, Except.bind] at ok
    split at ok
    · cases ok
    · rename_i next narrowed
      obtain ⟨same, nextGrounded, first⟩ := narrowAfter grounded (within p List.mem_cons_self) narrowed
      obtain ⟨same', groundedM, others⟩ := ih nextGrounded
        (fun q listed => same ▸ within q (List.mem_cons_of_mem _ listed)) ok
      refine ⟨same'.trans same, groundedM, fun i => ?_⟩
      rw [others, first, and_assoc]
      simp only [Instance.Heeds, List.forall_mem_cons]

theorem narrowAllHeeded {n : Narrowing} (grounded : n.Grounded)
    (within : ∀ p ∈ assigned, p.1 ∈ n.signature.slots) {i : Instance} (inside : n.Allows i)
    (heeds : i.Heeds assigned) : ∃ m, n.narrowAll assigned = .ok m := by
  induction assigned generalizing n with
  | nil => exact ⟨n, rfl⟩
  | cons p rest ih =>
    have member := within p List.mem_cons_self
    have tells := heeds p List.mem_cons_self
    obtain ⟨next, narrowed⟩ := narrowSucceeds grounded member inside tells
    obtain ⟨same, nextGrounded, first⟩ := narrowAfter grounded member narrowed
    obtain ⟨m, ok⟩ := ih nextGrounded
      (fun q listed => same ▸ within q (List.mem_cons_of_mem _ listed))
      ((first i).mpr ⟨inside, tells⟩) (fun q listed => heeds q (List.mem_cons_of_mem _ listed))
    refine ⟨m, ?_⟩
    simp only [narrowAll, List.foldlM_cons, narrowed, bind, Except.bind]
    exact ok

/-! Types without variants -/

theorem heedsFits {n : Narrowing} (grounded : n.Grounded)
    (within : ∀ p ∈ assigned, p.1 ∈ n.signature.slots ∧ p.2.isShape = true) {i : Instance}
    (inside : n.Allows i) : i.Heeds assigned ↔ i.Fits assigned :=
  forall₂_congr fun p member => Slot.tellsIff (within p member).2 fun _ _ same =>
    grounded.range inside (same ▸ (within p member).1)

theorem narrowAllAfter {n m : Narrowing} (grounded : n.Grounded)
    (within : ∀ p ∈ assigned, p.1 ∈ n.signature.slots ∧ p.2.isShape = true)
    (ok : n.narrowAll assigned = .ok m) :
    m.signature = n.signature ∧ m.Grounded ∧ ∀ i, m.Allows i ↔ n.Allows i ∧ i.Fits assigned := by
  obtain ⟨same, left, allowed⟩ := narrowAllTells grounded (fun p member => (within p member).1) ok
  exact ⟨same, left, fun i => (allowed i).trans (and_congr_right (heedsFits grounded within))⟩

theorem narrowAllSucceeds {n : Narrowing} (grounded : n.Grounded)
    (within : ∀ p ∈ assigned, p.1 ∈ n.signature.slots ∧ p.2.isShape = true) {i : Instance}
    (inside : n.Allows i) (fits : i.Fits assigned) : ∃ m, n.narrowAll assigned = .ok m :=
  narrowAllHeeded grounded (fun p member => (within p member).1) inside
    ((heedsFits grounded within inside).mpr fits)

end All

theorem resolveIff {n : Narrowing} (grounded : n.Grounded) {slot : Slot}
    (member : slot ∈ n.signature.slots) :
    ∃ type, n.resolve slot = .ok type ∧
      ∀ t, t ∈ type.alternatives ↔ ∃ i, n.Allows i ∧ slot.Takes i t := by
  cases slot with
  | fixed type =>
    obtain ⟨i, inside⟩ := grounded.allows
    exact ⟨type, rfl, fun t => ⟨fun listed => ⟨i, inside, listed⟩, fun ⟨_, _, listed⟩ => listed⟩⟩
  | template name role =>
    obtain ⟨c, found, sane⟩ := grounded name role member
    obtain ⟨whole, listed⟩ := Role.typesIff role (Constraint.saneIff.mp sane).1
    refine ⟨role.types c, ?_, fun t => ?_⟩
    · simp only [resolve, constraintOf, found, bind, Except.bind]
    · rw [listed]
      constructor
      · rintro ⟨shape, allowed, takes⟩
        obtain ⟨i, inside, chosen⟩ := grounded.allowsAt found allowed
        exact ⟨i, inside, show role.Takes (i name) t from chosen ▸ takes⟩
      · rintro ⟨i, inside, takes⟩
        obtain ⟨d, before, chosen⟩ := inside name role member
        cases found.symm.trans before
        exact ⟨i name, chosen, takes⟩

/- Slots are those of the parameters and of the result. Types may be connected in any order. -/
theorem narrowingExact (s : Signature) (grounded : s.Grounded) (assigned : List (Slot × ValueType))
    (within : ∀ p ∈ assigned, p.1 ∈ s.slots ∧ p.2.isShape = true) :
    ((∃ n, (start s).narrowAll assigned = .ok n) ↔ ∃ i, s.Allows i ∧ i.Fits assigned) ∧
    ∀ n, (start s).narrowAll assigned = .ok n → ∀ slot ∈ s.slots,
      ∃ type, n.resolve slot = .ok type ∧
        ∀ t, t ∈ type.alternatives ↔ ∃ i, s.Allows i ∧ i.Fits assigned ∧ slot.Takes i t := by
  have begun : (start s).Grounded := grounded
  refine ⟨⟨fun ⟨n, ok⟩ => ?_, fun ⟨i, inside, fits⟩ => ?_⟩, fun n ok slot member => ?_⟩
  · obtain ⟨_, left, allowed⟩ := narrowAllAfter begun within ok
    obtain ⟨i, inside⟩ := left.allows
    exact ⟨i, (allowed i).mp inside⟩
  · exact narrowAllSucceeds begun within inside fits
  · obtain ⟨same, left, allowed⟩ := narrowAllAfter begun within ok
    have known : n.signature = s := same
    obtain ⟨type, resolved, listed⟩ := resolveIff left (known ▸ member)
    refine ⟨type, resolved, fun t => (listed t).trans (exists_congr fun i => ?_)⟩
    rw [allowed, and_assoc]
    rfl

def blend : Signature where
  name := "blend"
  output := .template "T" .boolShaped
  parameters := [("x", .template "T" .wholeOrComponent), ("y", .template "T" .whole),
    ("z", .template "T" .component), ("k", .template "U" .component), ("m", .fixed .float)]
  templates := Table.ofList [("T", ⟨[.float, .int], [1, 2, 3, 4]⟩), ("U", ⟨[.bool, .uint], [2, 3]⟩)]

def blended : List (Slot × ValueType) :=
  [(.template "T" .component, .scalar .int), (.template "T" .wholeOrComponent, .vector .int 3)]

theorem narrowingExactBlend :
    (blend.Grounded ∧ ∀ p ∈ blended, p.1 ∈ blend.slots ∧ p.2.isShape = true) ∧
    ((∃ n, (start blend).narrowAll blended = .ok n) ↔ ∃ i, blend.Allows i ∧ i.Fits blended) ∧
    ∀ n, (start blend).narrowAll blended = .ok n →
      n.resolve (.template "T" .wholeOrComponent) =
        .ok (.variant [.vector .int 3, .scalar .int]) ∧
      ∀ slot ∈ blend.slots, ∃ type, n.resolve slot = .ok type ∧
        ∀ t, t ∈ type.alternatives ↔ ∃ i, blend.Allows i ∧ i.Fits blended ∧ slot.Takes i t := by
  have grounded : blend.Grounded := by
    intro name role member
    simp only [blend, Signature.slots, List.map_cons, List.map_nil, List.mem_cons,
      Slot.template.injEq, reduceCtorEq, List.not_mem_nil, or_false] at member
    rcases member with ⟨rfl, _⟩ | ⟨rfl, _⟩ | ⟨rfl, _⟩ | ⟨rfl, _⟩ | ⟨rfl, _⟩
    all_goals exact ⟨_, rfl, by constructor <;> decide⟩
  have within : ∀ p ∈ blended, p.1 ∈ blend.slots ∧ p.2.isShape = true := by decide
  obtain ⟨succeeds, resolved⟩ := narrowingExact blend grounded blended within
  refine ⟨⟨grounded, within⟩, succeeds, fun n ok => ⟨?_, resolved n ok⟩⟩
  cases ok
  rfl

end Narrowing
end ShaderNet

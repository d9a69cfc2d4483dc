import ShaderNet.Proofs.Template.Calls
import ShaderNet.Proofs.Template.Collapsed

/-! Collapsing keeps what is connected. All choices that are left suit the connected types, so that the one
that collapsing keeps does too; and it is the choice that was listed first for every slot. -/
namespace ShaderNet

namespace Role

theorem listedHead (role : Role) (c : Constraint) :
    (role.listed c.collapse).head? = (role.listed c).head? := by
  by_cases either : role = .wholeOrComponent
  · obtain ⟨bases, sizes⟩ := c
    subst either
    cases bases <;> cases sizes <;> rfl
  · rw [listedCollapsed either]
    cases role.listed c <;> rfl

theorem typesHead {role : Role} {c : Constraint} {t : ValueType}
    (first : (role.listed c).head? = some t) : (role.types c).first = t := by
  obtain ⟨rest, types⟩ := List.head?_eq_some_iff.mp first
  rw [typesOneOf, types]
  exact ValueType.oneOfFirst fun u member => (listedPlain u (types ▸ member)).1

theorem typesFirst {role : Role} {c : Constraint} (sane : role.types c ≠ .broken) :
    (role.types c.collapse).first = (role.types c).first := by
  cases first : (role.listed c).head? with
  | none =>
    rw [typesOneOf, List.head?_eq_none_iff.mp first] at sane
    exact absurd rfl sane
  | some t => rw [typesHead first, typesHead ((listedHead role c).trans first)]

end Role

namespace Narrowing

variable {n : Narrowing}

/- An instance that is left takes the connected type, and so it is one of those resolved to. -/
theorem resolvedTakes (grounded : n.Grounded) {slot : Slot} (template : slot.isTemplate = true)
    (listed : slot ∈ n.signature.slots) {type : ValueType} (plain : type.isVariant = false)
    (takes : ∀ i, n.Allows i → slot.Takes i type) :
    ∃ t, n.resolve slot = .ok t ∧ type.toStrictly t = true := by
  obtain ⟨t, resolved, _, shapes, types⟩ := resolveShapes grounded template listed
  obtain ⟨i, inside⟩ := grounded.allows
  refine ⟨t, resolved, (ValueType.toStrictlyIff plain fun u among => (shapes u among).2).mpr ?_⟩
  exact (types type).mpr ⟨i, inside, takes i inside⟩

theorem resolvedFirst (grounded : n.Grounded) {slot : Slot} (listed : slot ∈ n.signature.slots) :
    ∃ t u, n.resolve slot = .ok t ∧ n.collapse.resolve slot = .ok u ∧ u.first = t.first := by
  obtain ⟨t, resolved, _⟩ := resolveIff grounded listed
  obtain ⟨u, collapsed, _⟩ := resolveIff (collapseGrounded grounded) listed
  refine ⟨t, u, resolved, collapsed, ?_⟩
  cases slot with
  | fixed type =>
    cases resolved
    cases collapsed
    rfl
  | template name role =>
    obtain ⟨c, found, rfl, sane⟩ := resolveOk.mp resolved
    obtain ⟨d, now, rfl, _⟩ := resolveOk.mp collapsed
    rw [collapse, Table.getMapValues, found] at now
    cases now
    exact Role.typesFirst sane

theorem collapseKeeps (s : Signature) (grounded : s.Grounded) (assigned : List (Slot × ValueType))
    (within : ∀ p ∈ assigned, p.1 ∈ s.slots ∧ p.2.isShape = true) (n : Narrowing)
    (ok : (start s).narrowAll assigned = .ok n) :
    (∀ p ∈ assigned, p.1.isTemplate = true →
      (∃ t, n.resolve p.1 = .ok t ∧ p.2.toStrictly t = true) ∧
        ∃ t, n.collapse.resolve p.1 = .ok t ∧ p.2.toStrictly t = true) ∧
    ∀ slot ∈ s.slots, ∃ t u, n.resolve slot = .ok t ∧ n.collapse.resolve slot = .ok u ∧
      u.first = t.first := by
  obtain ⟨same, left, allowed⟩ := narrowAllAfter (show (start s).Grounded from grounded) within ok
  have slots : ∀ slot ∈ s.slots, slot ∈ n.signature.slots := fun slot listed => same ▸ listed
  refine ⟨fun p member template => ?_, fun slot listed => resolvedFirst left (slots slot listed)⟩
  obtain ⟨listed, shape⟩ := within p member
  have plain := ValueType.shapePlain shape
  have takes : ∀ i, n.Allows i → p.1.Takes i p.2 := fun i inside =>
    ((allowed i).mp inside).2 p member template
  exact ⟨resolvedTakes left template (slots _ listed) plain takes,
    resolvedTakes (collapseGrounded left) template (slots _ listed) plain fun i inside =>
      takes i (collapseAllows inside)⟩

def spread : List (Slot × ValueType) :=
  [(.template "T" .wholeOrComponent, .scalar .int), (.template "U" .component, .scalar .uint),
    (.template "T" .boolShaped, .vector .bool 3)]

theorem collapseKeepsSpread :
    (blend.Grounded ∧ (∀ p ∈ spread, p.1 ∈ blend.slots ∧ p.2.isShape = true) ∧
      ∃ n, (start blend).narrowAll spread = .ok n ∧
        n.collapse.resolve (.template "T" .wholeOrComponent) =
          .ok (.variant [.vector .int 3, .scalar .int])) ∧
    ∀ n, (start blend).narrowAll spread = .ok n →
      (∀ p ∈ spread, p.1.isTemplate = true →
        (∃ t, n.resolve p.1 = .ok t ∧ p.2.toStrictly t = true) ∧
          ∃ t, n.collapse.resolve p.1 = .ok t ∧ p.2.toStrictly t = true) ∧
      ∀ slot ∈ blend.slots, ∃ t u, n.resolve slot = .ok t ∧ n.collapse.resolve slot = .ok u ∧
        u.first = t.first := by
  have grounded : blend.Grounded := Signature.groundedEach (by decide)
  have within : ∀ p ∈ spread, p.1 ∈ blend.slots ∧ p.2.isShape = true := by decide
  exact ⟨⟨grounded, within, _, rfl, rfl⟩, collapseKeeps blend grounded spread within⟩

end Narrowing
end ShaderNet

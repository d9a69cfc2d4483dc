import ShaderNet.Proofs.Table
import ShaderNet.Proofs.ValueType.Regular
import ShaderNet.Template.Builtin

/-! Collapsed templates. Where several types are left, the one that collapsing keeps is the first of those
that are declared. -/
namespace ShaderNet

namespace Role

def listed (role : Role) (c : Constraint) : List ValueType :=
  match role with
  | whole => c.bases.flatMap fun base => c.sizes.map (ValueType.shaped base)
  | component => c.bases.map .scalar
  | wholeOrComponent => c.bases.flatMap fun base => c.sizes.map (ValueType.shaped base) ++ [.scalar base]
  | boolShaped => c.sizes.map (ValueType.shaped .bool)

theorem typesOneOf (role : Role) (c : Constraint) : role.types c = .oneOf (role.listed c) := by
  cases role <;> rfl

theorem listedShaped {role : Role} {c : Constraint} {t : ValueType} (member : t ∈ role.listed c) :
    (∃ base, ∃ size ∈ c.sizes, t = .shaped base size) ∨ ∃ base, t = .scalar base := by
  cases role with
  | whole =>
    obtain ⟨base, _, member⟩ := List.mem_flatMap.mp member
    obtain ⟨size, listed, rfl⟩ := List.mem_map.mp member
    exact .inl ⟨base, size, listed, rfl⟩
  | component =>
    obtain ⟨base, _, rfl⟩ := List.mem_map.mp member
    exact .inr ⟨base, rfl⟩
  | wholeOrComponent =>
    obtain ⟨base, _, member⟩ := List.mem_flatMap.mp member
    rcases List.mem_append.mp member with member | member
    · obtain ⟨size, listed, rfl⟩ := List.mem_map.mp member
      exact .inl ⟨base, size, listed, rfl⟩
    · exact .inr ⟨base, List.mem_singleton.mp member⟩
  | boolShaped =>
    obtain ⟨size, listed, rfl⟩ := List.mem_map.mp member
    exact .inl ⟨.bool, size, listed, rfl⟩

theorem listedPlain {role : Role} {c : Constraint} :
    ∀ t ∈ role.listed c, t.isVariant = false ∧ t ≠ .broken := by
  intro t member
  rcases listedShaped member with ⟨base, size, _, rfl⟩ | ⟨base, rfl⟩
  · exact ⟨ValueType.shapedPlain base size, ValueType.shapedSane base size⟩
  · exact ⟨rfl, fun impossible => by cases impossible⟩

theorem typesAdmitted {P : ValueType → Prop} (admits : ValueType.Admits P) {role : Role} {c : Constraint}
    (range : ∀ n ∈ c.sizes, 1 ≤ n ∧ n ≤ 4) : P (role.types c) := by
  rw [typesOneOf]
  refine admits.oneOf _ fun t member => ?_
  rcases listedShaped member with ⟨base, size, listed, rfl⟩ | ⟨base, rfl⟩
  · exact ValueType.shapedAdmitted admits (range size listed)
  · exact admits.scalar base

theorem listedCollapsed {role : Role} (decided : role ≠ .wholeOrComponent) (c : Constraint) :
    role.listed c.collapse = (role.listed c).take 1 := by
  obtain ⟨bases, sizes⟩ := c
  cases role with
  | whole => cases bases <;> cases sizes <;> simp [listed, Constraint.collapse]
  | component => cases bases <;> simp [listed, Constraint.collapse]
  | wholeOrComponent => exact absurd rfl decided
  | boolShaped => cases sizes <;> simp [listed, Constraint.collapse]

theorem listedSome {role : Role} {c : Constraint} (some : role.listed c.collapse ≠ []) :
    role.listed c ≠ [] := by
  obtain ⟨bases, sizes⟩ := c
  cases role <;> cases bases <;> cases sizes <;> simp_all [listed, Constraint.collapse]

theorem typesCollapsed {role : Role} {c : Constraint} (sane : role.types c.collapse ≠ .broken) :
    role.types c ≠ .broken ∧
      (role ≠ .wholeOrComponent → (role.types c).first = role.types c.collapse) := by
  rw [typesOneOf] at sane
  have some : role.listed c.collapse ≠ [] := by
    intro none
    rw [none] at sane
    exact sane rfl
  have left := listedSome some
  have plain : ∀ t ∈ role.listed c, t.isVariant = false := fun t member => (listedPlain t member).1
  rw [typesOneOf, typesOneOf]
  refine ⟨ValueType.oneOfBroken plain left fun broken => (listedPlain _ broken).2 rfl, fun decided => ?_⟩
  rw [listedCollapsed decided]
  cases types : role.listed c with
  | nil => exact absurd types left
  | cons t rest =>
    rw [types] at plain
    rw [ValueType.oneOfFirst plain]
    exact (ValueType.oneOfSingle (plain t List.mem_cons_self)).symm

end Role

def Slot.isDecided : Slot → Bool
  | .fixed type => !type.isVariant && type.isRegular
  | .template _ role => role ≠ .wholeOrComponent

namespace Narrowing

def Ranged (n : Narrowing) : Prop :=
  ∀ name c, n.constraints.get? name = some c → ∀ size ∈ c.sizes, 1 ≤ size ∧ size ≤ 4

theorem constraintOk {n : Narrowing} {name : String} {c : Constraint} :
    n.constraintOf name = .ok c ↔ n.constraints.get? name = some c := by
  unfold constraintOf
  cases n.constraints.get? name <;> simp

/- A connected type only takes choices away. -/
theorem narrowEach {P : Constraint → Prop} (fewer : ∀ c d, P c → P (c.intersect d)) {n m : Narrowing}
    {slot : Slot} {connected : ValueType}
    (each : ∀ name c, n.constraints.get? name = some c → P c)
    (ok : n.narrow slot connected = .ok m) : ∀ name c, m.constraints.get? name = some c → P c := by
  cases slot with
  | fixed type =>
    cases ok
    exact each
  | template name role =>
    simp only [narrow, bind, Except.bind] at ok
    cases found : n.constraintOf name with
    | error cause =>
      rw [found] at ok
      cases ok
    | ok c =>
      simp only [found] at ok
      split at ok
      · cases ok
      · cases ok
        intro k d here
        rw [Table.getInsert] at here
        split at here
        · cases here
          exact fewer c _ (each name c (constraintOk.mp found))
        · exact each k d here

theorem narrowRanged {n m : Narrowing} {slot : Slot} {connected : ValueType} (ranged : n.Ranged)
    (ok : n.narrow slot connected = .ok m) : m.Ranged :=
  @narrowEach (fun c => ∀ size ∈ c.sizes, 1 ≤ size ∧ size ≤ 4)
    (fun _ _ range size member => range size (List.mem_filter.mp member).1) _ _ _ _ ranged ok

theorem collapseRanged {n : Narrowing} (ranged : n.Ranged) : n.collapse.Ranged := by
  intro name c found size member
  rw [collapse, Table.getMapValues] at found
  obtain ⟨d, before, rfl⟩ := Option.map_eq_some_iff.mp found
  exact ranged name d before size (List.mem_of_mem_take member)

theorem resolveOk {n : Narrowing} {name : String} {role : Role} {type : ValueType} :
    n.resolve (.template name role) = .ok type ↔
      ∃ c, n.constraints.get? name = some c ∧ role.types c = type ∧ type ≠ .broken := by
  simp only [resolve, constraintOf, bind, Except.bind]
  cases n.constraints.get? name with
  | none => simp
  | some c =>
    constructor
    · intro ok
      dsimp only at ok
      split at ok
      · cases ok
      · rename_i sane
        cases ok
        exact ⟨c, rfl, rfl, sane⟩
    · rintro ⟨d, same, rfl, sane⟩
      cases same
      dsimp only
      split
      · rename_i broken
        exact absurd broken sane
      · rfl

theorem resolveRegular {n : Narrowing} (ranged : n.Ranged) {slot : Slot} {type : ValueType}
    (decided : slot.isDecided = true) (ok : n.resolve slot = .ok type) : type.isRegular = true := by
  cases slot with
  | fixed t =>
    cases ok
    exact (Bool.and_eq_true_iff.mp decided).2
  | template name role =>
    obtain ⟨c, found, rfl, _⟩ := resolveOk.mp ok
    exact ValueType.flatRegular (Role.typesAdmitted ValueType.flatAdmits (ranged name c found))

theorem resolveCollapsed {n : Narrowing} {slot : Slot} {type : ValueType}
    (ok : n.collapse.resolve slot = .ok type) :
    ∃ t, n.resolve slot = .ok t ∧ (slot.isDecided = true → t.first = type) := by
  cases slot with
  | fixed t =>
    refine ⟨t, rfl, fun decided => ?_⟩
    have plain : t.isVariant = false := by simpa using (Bool.and_eq_true_iff.mp decided).1
    rw [← Except.ok.inj ok]
    rw [ValueType.first, ValueType.alternativesSelf plain]
    rfl
  | template name role =>
    obtain ⟨d, found, rfl, sane⟩ := resolveOk.mp ok
    rw [collapse, Table.getMapValues] at found
    obtain ⟨c, before, rfl⟩ := Option.map_eq_some_iff.mp found
    obtain ⟨left, first⟩ := Role.typesCollapsed sane
    exact ⟨_, resolveOk.mpr ⟨c, before, rfl, left⟩, fun decided => first (of_decide_eq_true decided)⟩

end Narrowing

namespace Signature

def isDecided (s : Signature) : Bool :=
  s.output.isDecided && s.templates.entries.all fun p => p.2.sizes.all fun n => 1 ≤ n && n ≤ 4

theorem startRanged {s : Signature} (decided : s.isDecided = true) : (Narrowing.start s).Ranged := by
  intro name c found size member
  have each := List.all_eq_true.mp (Bool.and_eq_true_iff.mp decided).2 _ (Table.getMember found)
  simpa using List.all_eq_true.mp each size member

end Signature
end ShaderNet

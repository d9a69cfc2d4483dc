import ShaderNet.Proofs.Template.Exact

/-! Narrowing in any order. What a connected type leaves to a template is listed in the order in which the
template declares it, so that two types leave the same whichever comes first. -/
namespace ShaderNet

namespace Constraint

variable {c d e : Constraint}

theorem intersectSwap : (c.intersect d).intersect e = (c.intersect e).intersect d := by
  simp only [intersect, List.filter_filter, Bool.and_comm]

/- Fewer connected types leave more. -/
theorem intersectMore (left : ((c.intersect d).intersect e).isEmpty = false) :
    (c.intersect e).isEmpty = false := by
  obtain ⟨shape, allowed⟩ := isEmptyFalse.mp left
  simp only [intersectAllows] at allowed
  exact isEmptyFalse.mpr ⟨shape, intersectAllows.mpr ⟨allowed.1.1, allowed.2⟩⟩

end Constraint

namespace Narrowing

variable {n m k : Narrowing}

/- All that one connected type can do. -/
theorem narrowOk {name : String} {role : Role} {type : ValueType} :
    n.narrow (.template name role) type = .ok m ↔
      ∃ c, n.constraints.get? name = some c ∧ (c.intersect (role.admitsAny type)).isEmpty = false ∧
        m = n.replace name (c.intersect (role.admitsAny type)) := by
  cases found : n.constraints.get? name with
  | none => simp [narrow, constraintOf, found, bind, Except.bind]
  | some c =>
    cases left : (c.intersect (role.admitsAny type)).isEmpty with
    | true => simp [narrow, constraintOf, found, left, bind, Except.bind]
    | false => simp [narrow, constraintOf, found, left, bind, Except.bind, replace, @eq_comm _ m]

theorem replaceHere (n : Narrowing) (name : String) (c : Constraint) :
    (n.replace name c).constraints.get? name = some c := by
  rw [replace, Table.getInsert, if_pos rfl]

theorem replaceElsewhere {name other : String} (different : name ≠ other) (c : Constraint) :
    (n.replace name c).constraints.get? other = n.constraints.get? other := by
  rw [replace, Table.getInsert, if_neg different]

theorem replaceTwice (n : Narrowing) (name : String) (c d : Constraint) :
    (n.replace name c).replace name d = n.replace name d := by
  simp only [replace, mk.injEq, true_and]
  refine Table.ext fun other => ?_
  simp only [Table.getInsert]
  split <;> rfl

theorem replaceSwap {name other : String} (different : name ≠ other) (c d : Constraint) :
    (n.replace name c).replace other d = (n.replace other d).replace name c := by
  simp only [replace, mk.injEq, true_and]
  refine Table.ext fun key => ?_
  simp only [Table.getInsert]
  split
  · rename_i here
    rw [if_neg (here ▸ different)]
  · rfl

/- Two connected types, one after the other and the other way round. -/
theorem narrowSwap {a b : Slot} {t u : ValueType} (first : n.narrow a t = .ok m)
    (second : m.narrow b u = .ok k) : ∃ m', n.narrow b u = .ok m' ∧ m'.narrow a t = .ok k := by
  cases a with
  | fixed type =>
    cases first
    exact ⟨k, second, rfl⟩
  | template name role =>
    cases b with
    | fixed type =>
      cases second
      exact ⟨n, rfl, first⟩
    | template other role' =>
      obtain ⟨c, found, left, rfl⟩ := narrowOk.mp first
      obtain ⟨d, found', left', rfl⟩ := narrowOk.mp second
      by_cases same : name = other
      · subst same
        cases (replaceHere n name _).symm.trans found'
        refine ⟨_, narrowOk.mpr ⟨c, found, Constraint.intersectMore left', rfl⟩,
          narrowOk.mpr ⟨_, replaceHere n name _, Constraint.intersectSwap ▸ left', ?_⟩⟩
        rw [replaceTwice, replaceTwice, Constraint.intersectSwap]
      · rw [replaceElsewhere same] at found'
        refine ⟨_, narrowOk.mpr ⟨d, found', left', rfl⟩, narrowOk.mpr ⟨c, ?_, left, replaceSwap same _ _⟩⟩
        rw [replaceElsewhere (Ne.symm same), found]

theorem narrowAllCons {p : Slot × ValueType} {rest : List (Slot × ValueType)} :
    n.narrowAll (p :: rest) = .ok k ↔ ∃ m, n.narrow p.1 p.2 = .ok m ∧ m.narrowAll rest = .ok k := by
  simp only [narrowAll, List.foldlM_cons, bind, Except.bind]
  cases n.narrow p.1 p.2 <;> simp

theorem narrowAllPerm {assigned assigned' : List (Slot × ValueType)} (same : assigned.Perm assigned')
    (ok : n.narrowAll assigned = .ok k) : n.narrowAll assigned' = .ok k := by
  induction same generalizing n with
  | nil => exact ok
  | cons p _ ih =>
    obtain ⟨m, first, others⟩ := narrowAllCons.mp ok
    exact narrowAllCons.mpr ⟨m, first, ih others⟩
  | swap p q rest =>
    obtain ⟨m, first, later⟩ := narrowAllCons.mp ok
    obtain ⟨l, second, others⟩ := narrowAllCons.mp later
    obtain ⟨m', second', first'⟩ := narrowSwap first second
    exact narrowAllCons.mpr ⟨m', second', narrowAllCons.mpr ⟨l, first', others⟩⟩
  | trans _ _ ih ih' => exact ih' (ih ok)

theorem narrowingUnordered (s : Signature) {assigned assigned' : List (Slot × ValueType)}
    (same : assigned.Perm assigned') :
    ((∃ n, (start s).narrowAll assigned = .ok n) ↔ ∃ n, (start s).narrowAll assigned' = .ok n) ∧
    ∀ n n', (start s).narrowAll assigned = .ok n → (start s).narrowAll assigned' = .ok n' →
      n.constraints = n'.constraints ∧ ∀ slot, n.resolve slot = n'.resolve slot ∧
        n.collapse.resolve slot = n'.collapse.resolve slot := by
  refine ⟨⟨?_, ?_⟩, fun n n' ok ok' => ?_⟩
  · exact fun ⟨n, ok⟩ => ⟨n, narrowAllPerm same ok⟩
  · exact fun ⟨n, ok⟩ => ⟨n, narrowAllPerm same.symm ok⟩
  · cases (narrowAllPerm same ok).symm.trans ok'
    exact ⟨rfl, fun _ => ⟨rfl, rfl⟩⟩

def mingled : List (Slot × ValueType) :=
  [(.template "T" .wholeOrComponent, .variant [.vector .int 3, .scalar .float]),
    (.template "U" .component, .scalar .bool), (.fixed .float, .matrix .float 2 3),
    (.template "T" .whole, .variant [.vector .int 4, .sampler, .vector .int 3, .vector .float 4])]

theorem narrowingUnorderedMingled :
    mingled.Perm mingled.reverse ∧
    (∃ n, (start blend).narrowAll mingled = .ok n ∧
      n.resolve (.template "T" .whole) =
        .ok (.variant [.vec 3, .vec 4, .vector .int 3, .vector .int 4])) ∧
    ((∃ n, (start blend).narrowAll mingled = .ok n) ↔
      ∃ n, (start blend).narrowAll mingled.reverse = .ok n) ∧
    ∀ n n', (start blend).narrowAll mingled = .ok n → (start blend).narrowAll mingled.reverse = .ok n' →
      n.constraints = n'.constraints ∧ ∀ slot, n.resolve slot = n'.resolve slot ∧
        n.collapse.resolve slot = n'.collapse.resolve slot := by
  have same : mingled.Perm mingled.reverse := (List.reverse_perm mingled).symm
  exact ⟨same, ⟨_, rfl, rfl⟩, narrowingUnordered blend same⟩

end Narrowing
end ShaderNet

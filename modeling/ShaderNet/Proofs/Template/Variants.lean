import ShaderNet.Proofs.Template.Joined
import ShaderNet.Proofs.Template.Unordered

/-! Narrowing by a variant. The bases and the sizes that its alternatives tell of are collected apart from
each other, so that all that an alternative leaves is left, and also a base of one alternative with a
size of another. -/
namespace ShaderNet

namespace Constraint

theorem memUnionAll (c : Constraint) (ds : List Constraint) :
    (∀ base, base ∈ (ds.foldl union c).bases ↔ ∃ d ∈ c :: ds, base ∈ d.bases) ∧
      ∀ size, size ∈ (ds.foldl union c).sizes ↔ ∃ d ∈ c :: ds, size ∈ d.sizes := by
  induction ds generalizing c with
  | nil => simp
  | cons d rest ih =>
    obtain ⟨bases, sizes⟩ := ih (c.union d)
    constructor
    · intro base
      rw [List.foldl_cons, bases]
      simp only [union, List.exists_mem_cons_iff, memUnion, or_assoc]
    · intro size
      rw [List.foldl_cons, sizes]
      simp only [union, List.exists_mem_cons_iff, memUnion, or_assoc]

end Constraint

namespace Role

variable {role : Role} {t : ValueType} {ts : List ValueType}

theorem memAdmitsAny (role : Role) (t : ValueType) :
    (∀ base, base ∈ (role.admitsAny t).bases ↔ ∃ u ∈ t.alternatives, base ∈ (role.admits u).bases) ∧
      ∀ size, size ∈ (role.admitsAny t).sizes ↔
        ∃ u ∈ t.alternatives, size ∈ (role.admits u).sizes := by
  unfold admitsAny
  cases t.alternatives with
  | nil => simp [Constraint.none]
  | cons u rest =>
    obtain ⟨bases, sizes⟩ := Constraint.memUnionAll (role.admits u) (rest.map role.admits)
    simp only [List.map_cons, bases, sizes, List.exists_mem_cons_iff, List.mem_map,
      exists_exists_and_eq_and, implies_true, and_self]

/- A type tells of bases and sizes, or of neither. -/
theorem admitsBoth (role : Role) (t : ValueType) :
    (∃ base, base ∈ (role.admits t).bases) ↔ ∃ size, size ∈ (role.admits t).sizes := by
  have some {bases : List Scalar} {sizes : List Nat} (b : bases ≠ []) (s : sizes ≠ []) :
      (∃ base, base ∈ bases) ↔ ∃ size, size ∈ sizes :=
    iff_of_true (List.exists_mem_of_ne_nil _ b) (List.exists_mem_of_ne_nil _ s)
  have none : (∃ base, base ∈ Constraint.none.bases) ↔ ∃ size, size ∈ Constraint.none.sizes := by
    simp [Constraint.none]
  unfold admits
  split
  · cases role with
    | whole => exact some (by simp) (by simp)
    | component =>
      dsimp only
      split
      · exact some (by simp) (by simp [allSizes])
      · exact none
    | wholeOrComponent =>
      dsimp only
      split
      · exact some (by simp) (by simp [allSizes])
      · exact some (by simp) (by simp)
    | boolShaped =>
      dsimp only
      split
      · exact some (by simp [Scalar.all]) (by simp)
      · exact none
  · exact none

theorem admitsBase {base : Scalar} :
    base ∈ (role.admits t).bases ↔ ∃ size, (role.admits t).Allows ⟨base, size⟩ := by
  constructor
  · intro member
    obtain ⟨size, listed⟩ := (admitsBoth role t).mp ⟨base, member⟩
    exact ⟨size, member, listed⟩
  · rintro ⟨_, member, _⟩
    exact member

theorem admitsSize {size : Nat} :
    size ∈ (role.admits t).sizes ↔ ∃ base, (role.admits t).Allows ⟨base, size⟩ := by
  constructor
  · intro member
    obtain ⟨base, listed⟩ := (admitsBoth role t).mpr ⟨size, member⟩
    exact ⟨base, listed, member⟩
  · rintro ⟨_, _, member⟩
    exact member

theorem admitsRange (concrete : t.isShape = true) {size : Nat}
    (member : size ∈ (role.admits t).sizes) : 1 ≤ size ∧ size ≤ 4 := by
  have any : ∀ n ∈ allSizes, 1 ≤ n ∧ n ≤ 4 := by decide
  have own : ∀ base n, t.base? = some base → t.size? = some n → 1 ≤ n ∧ n ≤ 4 := by
    intro base n _ known
    cases t with
    | scalar b =>
      cases known
      decide
    | vector b k =>
      cases known
      simp only [ValueType.isShape, Bool.and_eq_true, decide_eq_true_eq] at concrete
      omega
    | _ => cases concrete
  unfold admits at member
  split at member
  · rename_i base n known known'
    have single : size ∈ [n] → 1 ≤ size ∧ size ≤ 4 :=
      fun here => List.mem_singleton.mp here ▸ own base n known known'
    cases role with
    | whole => exact single member
    | component =>
      dsimp only at member
      split at member
      · exact any size member
      · cases member
    | wholeOrComponent =>
      dsimp only at member
      split at member
      · exact any size member
      · exact single member
    | boolShaped =>
      dsimp only at member
      split at member
      · exact single member
      · cases member
  · cases member

def Suits (role : Role) (t : ValueType) (shape : Shape) : Prop :=
  (1 ≤ shape.size ∧ shape.size ≤ 4) ∧ role.Takes shape t

theorem admitsSuits (concrete : t.isShape = true) {shape : Shape} :
    (role.admits t).Allows shape ↔ role.Suits t shape := by
  constructor
  · intro allows
    have range := admitsRange concrete allows.2
    exact ⟨range, (admitsIff concrete range).mp allows⟩
  · exact fun suits => (admitsIff concrete suits.1).mpr suits.2

/-- Some alternative suits the base and some alternative, maybe another one, suits the size. -/
def Mixes (role : Role) (ts : List ValueType) (shape : Shape) : Prop :=
  (∃ t ∈ ts, ∃ size, role.Suits t ⟨shape.base, size⟩) ∧
    ∃ t ∈ ts, ∃ base, role.Suits t ⟨base, shape.size⟩

theorem admitsVariant (shapes : ∀ t ∈ ts, t.isShape = true) {shape : Shape} :
    (role.admitsAny (.variant ts)).Allows shape ↔ role.Mixes ts shape := by
  obtain ⟨bases, sizes⟩ := memAdmitsAny role (.variant ts)
  rw [Constraint.Allows, bases, sizes]
  simp only [admitsBase, admitsSize, ValueType.alternatives]
  refine and_congr (exists_congr fun t => ?_) (exists_congr fun t => ?_)
  · exact and_congr_right fun member => exists_congr fun _ => admitsSuits (shapes t member)
  · exact and_congr_right fun member => exists_congr fun _ => admitsSuits (shapes t member)

theorem suitsMixes {shape : Shape} (member : t ∈ ts) (suits : role.Suits t shape) :
    role.Mixes ts shape := ⟨⟨t, member, _, suits⟩, t, member, _, suits⟩

/-! Alternatives that cannot be mixed -/

theorem shapedParts (base : Scalar) (size : Nat) :
    (ValueType.shaped base size).base? = some base ∧ (ValueType.shaped base size).size? = some size := by
  unfold ValueType.shaped
  split
  · rename_i one
    exact ⟨rfl, congrArg some one.symm⟩
  · exact ⟨rfl, rfl⟩

theorem takesBase (based : role ≠ .boolShaped) {shape : Shape} (takes : role.Takes shape t) :
    t.base? = some shape.base := by
  cases role with
  | whole => exact takes ▸ (shapedParts _ _).1
  | component => exact takes ▸ rfl
  | wholeOrComponent =>
    rcases takes with whole | component
    · exact whole ▸ (shapedParts _ _).1
    · exact component ▸ rfl
  | boolShaped => exact absurd rfl based

variable {shape : Shape} (mixes : role.Mixes ts shape)
include mixes

/- A component says nothing of the size, and truth values say nothing of the base. -/
theorem Mixes.half (half : role = .component ∨ role = .boolShaped) : ∃ t ∈ ts, role.Suits t shape := by
  obtain ⟨⟨t, left, _, suits⟩, u, right, _, suits'⟩ := mixes
  rcases half with rfl | rfl
  · exact ⟨t, left, suits'.1, suits.2⟩
  · exact ⟨u, right, suits'.1, suits'.2⟩

theorem Mixes.sameBase (same : ∀ t ∈ ts, ∀ u ∈ ts, t.base? = u.base?) : ∃ t ∈ ts, role.Suits t shape := by
  by_cases based : role = .boolShaped
  · exact mixes.half (.inr based)
  · obtain ⟨⟨t, left, _, suits⟩, u, right, base, suits'⟩ := mixes
    have first := takesBase based suits.2
    have second := takesBase based suits'.2
    cases second.symm.trans ((same u right t left).trans first)
    exact ⟨u, right, suits'⟩

theorem Mixes.sameSize (same : ∀ t ∈ ts, ∀ u ∈ ts, t.size? = u.size?) : ∃ t ∈ ts, role.Suits t shape := by
  by_cases half : role = .component ∨ role = .boolShaped
  · exact mixes.half half
  · obtain ⟨⟨t, left, size, suits⟩, u, right, base, suits'⟩ := mixes
    have sizes := same t left u right
    -- the alternative that suits the base is of the other's size, or a scalar and suits any size
    have suited : t = .shaped shape.base size → u = .shaped base shape.size →
        t = .shaped shape.base shape.size := by
      rintro rfl rfl
      rw [(shapedParts _ _).2, (shapedParts _ _).2] at sizes
      rw [Option.some.inj sizes]
    refine ⟨t, left, suits'.1, ?_⟩
    cases role with
    | whole => exact suited suits.2 suits'.2
    | component => exact absurd (.inl rfl) half
    | wholeOrComponent =>
      rcases suits.2 with whole | component
      · rcases suits'.2 with whole' | component'
        · exact .inl (suited whole whole')
        · rw [whole, component', (shapedParts _ _).2] at sizes
          rw [Option.some.inj sizes] at whole
          exact .inr whole
      · exact .inr component
    | boolShaped => exact absurd (.inr rfl) half

end Role

namespace Narrowing

variable {n m : Narrowing} {name : String} {role : Role} {t : ValueType} {ts : List ValueType}

def Leaves (n : Narrowing) (name : String) (shape : Shape) : Prop :=
  ∃ c, n.constraints.get? name = some c ∧ c.Allows shape

theorem narrowLeaves (ok : n.narrow (.template name role) t = .ok m) (shape : Shape) :
    m.Leaves name shape ↔ n.Leaves name shape ∧ (role.admitsAny t).Allows shape := by
  obtain ⟨c, found, _, rfl⟩ := narrowOk.mp ok
  simp only [Leaves, replaceHere, found, Option.some.injEq, exists_eq_left', Constraint.intersectAllows]

theorem narrowSome :
    (∃ m, n.narrow (.template name role) t = .ok m) ↔
      ∃ shape, n.Leaves name shape ∧ (role.admitsAny t).Allows shape := by
  simp only [narrowOk, Leaves]
  constructor
  · rintro ⟨_, c, found, left, _⟩
    obtain ⟨shape, allowed⟩ := Constraint.isEmptyFalse.mp left
    obtain ⟨inside, told⟩ := Constraint.intersectAllows.mp allowed
    exact ⟨shape, ⟨c, found, inside⟩, told⟩
  · rintro ⟨shape, ⟨c, found, inside⟩, told⟩
    have left := Constraint.isEmptyFalse.mpr ⟨shape, Constraint.intersectAllows.mpr ⟨inside, told⟩⟩
    exact ⟨_, c, found, left, rfl⟩

/-- A variant is taken exactly if one of its alternatives is, and leaves nothing but what one of them
leaves. -/
def ByAlternatives (n : Narrowing) (name : String) (role : Role) (ts : List ValueType) : Prop :=
  let slot := Slot.template name role
  ((∃ m, n.narrow slot (.variant ts) = .ok m) ↔ ∃ t ∈ ts, ∃ m, n.narrow slot t = .ok m) ∧
    ∀ m, n.narrow slot (.variant ts) = .ok m → ∀ shape, m.Leaves name shape →
      ∃ t ∈ ts, ∃ m', n.narrow slot t = .ok m' ∧ m'.Leaves name shape

section Shapes

variable (shapes : ∀ t ∈ ts, t.isShape = true)
include shapes

theorem alternativeTells (member : t ∈ ts) {shape : Shape} :
    (role.admitsAny t).Allows shape ↔ role.Suits t shape := by
  rw [Role.admitsAnyShape (shapes t member), Role.admitsSuits (shapes t member)]

theorem alternativeSome (member : t ∈ ts) :
    (∃ m, n.narrow (.template name role) t = .ok m) ↔
      ∃ shape, n.Leaves name shape ∧ role.Suits t shape := by
  simp only [narrowSome, alternativeTells shapes member]

theorem variantSome :
    (∃ m, n.narrow (.template name role) (.variant ts) = .ok m) ↔
      ∃ shape, n.Leaves name shape ∧ role.Mixes ts shape := by
  simp only [narrowSome, Role.admitsVariant shapes]

theorem variantLeaves (ok : n.narrow (.template name role) (.variant ts) = .ok m) (shape : Shape) :
    m.Leaves name shape ↔ n.Leaves name shape ∧ role.Mixes ts shape := by
  rw [narrowLeaves ok, Role.admitsVariant shapes]

/- What one alternative leaves is left by the variant. -/
theorem alternativeKept (member : t ∈ ts) (ok : n.narrow (.template name role) t = .ok m) :
    ∃ m', n.narrow (.template name role) (.variant ts) = .ok m' ∧
      ∀ shape, m.Leaves name shape → m'.Leaves name shape := by
  have mixes : ∀ shape, m.Leaves name shape → n.Leaves name shape ∧ role.Mixes ts shape := by
    intro shape left
    obtain ⟨inside, told⟩ := (narrowLeaves ok shape).mp left
    exact ⟨inside, Role.suitsMixes member ((alternativeTells shapes member).mp told)⟩
  obtain ⟨shape, inside, suits⟩ := (alternativeSome shapes member).mp ⟨m, ok⟩
  obtain ⟨m', ok'⟩ := (variantSome shapes).mpr ⟨shape, inside, Role.suitsMixes member suits⟩
  exact ⟨m', ok', fun shape left => (variantLeaves shapes ok' shape).mpr (mixes shape left)⟩

theorem byAlternativesIff :
    n.ByAlternatives name role ts ↔
      ∀ shape, n.Leaves name shape → role.Mixes ts shape → ∃ t ∈ ts, role.Suits t shape := by
  constructor
  · rintro ⟨_, within⟩ shape inside mixes
    obtain ⟨m, ok⟩ := (variantSome shapes).mpr ⟨shape, inside, mixes⟩
    obtain ⟨t, member, m', ok', left⟩ :=
      within m ok shape ((variantLeaves shapes ok shape).mpr ⟨inside, mixes⟩)
    exact ⟨t, member, (alternativeTells shapes member).mp ((narrowLeaves ok' shape).mp left).2⟩
  · intro unmixed
    have alone : ∀ shape, n.Leaves name shape → role.Mixes ts shape →
        ∃ t ∈ ts, ∃ m', n.narrow (.template name role) t = .ok m' ∧ m'.Leaves name shape := by
      intro shape inside mixes
      obtain ⟨t, member, suits⟩ := unmixed shape inside mixes
      obtain ⟨m', ok⟩ := (alternativeSome shapes member).mpr ⟨shape, inside, suits⟩
      exact ⟨t, member, m', ok,
        (narrowLeaves ok shape).mpr ⟨inside, (alternativeTells shapes member).mpr suits⟩⟩
    refine ⟨⟨fun taken => ?_, fun taken => ?_⟩, fun m ok shape left => ?_⟩
    · obtain ⟨shape, inside, mixes⟩ := (variantSome shapes).mp taken
      obtain ⟨t, member, m', ok, _⟩ := alone shape inside mixes
      exact ⟨t, member, m', ok⟩
    · obtain ⟨t, member, m, ok⟩ := taken
      obtain ⟨m', ok', _⟩ := alternativeKept shapes member ok
      exact ⟨m', ok'⟩
    · obtain ⟨inside, mixes⟩ := (variantLeaves shapes ok shape).mp left
      exact alone shape inside mixes

end Shapes

/- Any state of any signature will do, also one that has no such template. -/
theorem variantNarrows (n : Narrowing) (name : String) (role : Role) (ts : List ValueType)
    (shapes : ∀ t ∈ ts, t.isShape = true) :
    let slot := Slot.template name role
    (∀ t ∈ ts, ∀ m, n.narrow slot t = .ok m → ∃ m', n.narrow slot (.variant ts) = .ok m' ∧
      ∀ shape, m.Leaves name shape → m'.Leaves name shape) ∧
    ((∃ m, n.narrow slot (.variant ts) = .ok m) ↔
      ∃ shape, n.Leaves name shape ∧ role.Mixes ts shape) ∧
    (∀ m, n.narrow slot (.variant ts) = .ok m → ∀ shape, m.Leaves name shape ↔
      n.Leaves name shape ∧ role.Mixes ts shape) ∧
    (n.ByAlternatives name role ts ↔
      ∀ shape, n.Leaves name shape → role.Mixes ts shape → ∃ t ∈ ts, role.Suits t shape) ∧
    ((role = .component ∨ role = .boolShaped) ∨ (∀ t ∈ ts, ∀ u ∈ ts, t.base? = u.base?) ∨
      (∀ t ∈ ts, ∀ u ∈ ts, t.size? = u.size?) → n.ByAlternatives name role ts) := by
  refine ⟨fun t member m ok => alternativeKept shapes member ok, variantSome shapes,
    fun m ok => variantLeaves shapes ok, byAlternativesIff shapes, fun apart => ?_⟩
  refine (byAlternativesIff shapes).mpr fun shape _ mixes => ?_
  rcases apart with half | base | size
  · exact Role.Mixes.half mixes half
  · exact Role.Mixes.sameBase mixes base
  · exact Role.Mixes.sameSize mixes size

def floats : List ValueType := [.vec 4, .float, .vec 2]

theorem variantNarrowsFloats :
    (∀ t ∈ floats, t.isShape = true) ∧
    (∃ m, (start blend).narrow (.template "T" .whole) (.variant floats) = .ok m ∧
      m.resolve (.template "T" .whole) = .ok (.variant [.float, .vec 2, .vec 4])) ∧
    (start blend).ByAlternatives "T" .whole floats := by
  have shapes : ∀ t ∈ floats, t.isShape = true := by decide
  have same : ∀ t ∈ floats, ∀ u ∈ floats, t.base? = u.base? := by decide
  obtain ⟨_, _, _, _, apart⟩ := variantNarrows (start blend) "T" .whole floats shapes
  exact ⟨shapes, ⟨_, rfl, rfl⟩, apart (.inr (.inl same))⟩

def lesser : Signature :=
  .onNumbers "min" [("x", Signature.whole), ("y", Signature.wholeOrComponent)]

/- Beside a vector of two floats there is no place for an integer or for a vector of three, but for a
variant of both; and a variant of both kinds of vectors leaves vectors of either size to either base. -/
theorem variantMixed :
    (lesser ∈ Signature.builtins ∧ lesser.Grounded) ∧
    (∃ n, (start lesser).narrow Signature.whole (.vec 2) = .ok n ∧
      (∃ m, n.narrow Signature.wholeOrComponent (.variant [.scalar .int, .vec 3]) = .ok m) ∧
      ∀ t ∈ [.scalar .int, .vec 3], ∀ m, n.narrow Signature.wholeOrComponent t ≠ .ok m) ∧
    ∃ m, (start lesser).narrow Signature.whole (.variant [.vec 2, .vector .int 3]) = .ok m ∧
      m.Leaves "T" ⟨.float, 3⟩ ∧ ∀ t ∈ [.vec 2, .vector .int 3], ∀ m',
        (start lesser).narrow Signature.whole t = .ok m' → ¬ m'.Leaves "T" ⟨.float, 3⟩ := by
  refine ⟨⟨by decide +kernel, Signature.groundedEach (by decide)⟩, ⟨_, rfl, ⟨_, rfl⟩, ?_⟩, _, rfl,
    ⟨_, rfl, by decide, by decide⟩, ?_⟩
  · refine List.forall_mem_cons.mpr ⟨?_, List.forall_mem_singleton.mpr ?_⟩
    · exact fun _ ok => by cases ok
    · exact fun _ ok => by cases ok
  · refine List.forall_mem_cons.mpr ⟨?_, List.forall_mem_singleton.mpr ?_⟩
    · rintro _ ok ⟨c, found, allowed⟩
      cases ok
      cases found
      exact absurd allowed.2 (by decide)
    · rintro _ ok ⟨c, found, allowed⟩
      cases ok
      cases found
      exact absurd allowed.1 (by decide)

end Narrowing
end ShaderNet

import Mathlib.Data.List.Nodup
import ShaderNet.Proofs.ValueType.Order

/-! Variants in normal form. One of several types in normal form is in normal form again, and it stands
between other types as the several types do: below what all of them convert to, and above what converts
to any of them. -/
namespace ShaderNet.ValueType

variable {s t u : ValueType} {ts xs ys : List ValueType}

def isNormal : ValueType → Bool
  | .variant ts => 2 ≤ ts.length && ts.Nodup && ts.all fun t => !t.isVariant
  | _ => true

theorem variantNormal : (variant ts).isNormal = true ↔
    2 ≤ ts.length ∧ ts.Nodup ∧ ∀ t ∈ ts, t.isVariant = false := by
  simp [isNormal, and_assoc]

theorem plainNormal (plain : t.isVariant = false) : t.isNormal = true := by
  cases t <;> first | rfl | cases plain

theorem normalPlain (normal : t.isNormal = true) : ∀ u ∈ t.alternatives, u.isVariant = false := by
  cases t with
  | variant ts => exact (variantNormal.mp normal).2.2
  | _ => exact fun u member => List.mem_singleton.mp member ▸ rfl

theorem normalSome (normal : t.isNormal = true) : t.alternatives ≠ [] := by
  cases t with
  | variant ts =>
    have several := (variantNormal.mp normal).1
    exact List.ne_nil_of_length_pos (Nat.lt_of_lt_of_le Nat.two_pos several)
  | _ => exact List.cons_ne_nil _ _

/-! Lists without repetitions -/

theorem appendNodup {flat : List ValueType} (nodup : flat.Nodup) : (ts.foldl append flat).Nodup := by
  induction ts generalizing flat with
  | nil => exact nodup
  | cons t ts ih =>
    rw [List.foldl_cons]
    refine ih ?_
    unfold append
    split
    · exact nodup
    · rename_i fresh
      exact List.concat_eq_append ▸ nodup.concat fresh

/- What has been appended to one list may be appended to another as it came. -/
theorem appendAppend (before flat ts : List ValueType) :
    (ts.foldl append flat).foldl append before = ts.foldl append (flat.foldl append before) := by
  induction ts generalizing flat with
  | nil => rfl
  | cons t ts ih =>
    rw [List.foldl_cons, ih, List.foldl_cons]
    congr 1
    by_cases present : t ∈ flat
    · have known : t ∈ flat.foldl append before := (memAppendList before flat).mpr (.inr present)
      rw [append, if_pos present, append, if_pos known]
    · rw [append, if_neg present, List.foldl_append]
      rfl

theorem joinedAppend (xs ys : List ValueType) :
    joined (xs ++ ys) = (joined xs ++ joined ys).foldl append [] := by
  simp only [joined, List.flatMap_append, List.foldl_append, appendAppend, List.foldl_nil]

/-! One of several types in normal form -/

section Normal

variable (normal : ∀ t ∈ ts, t.isNormal = true)
include normal

theorem joinedPlain : ∀ u ∈ joined ts, u.isVariant = false := by
  intro u member
  obtain ⟨t, inside, member⟩ := memJoined.mp member
  exact normalPlain (normal t inside) u member

theorem oneOfNormal : (oneOf ts).isNormal = true := by
  rcases oneOfCases ts with ⟨_, same⟩ | ⟨t, one, same⟩ | ⟨several, same⟩ <;> rw [same]
  · rfl
  · exact plainNormal (joinedPlain normal t (one ▸ List.mem_singleton.mpr rfl))
  · exact variantNormal.mpr ⟨several, appendNodup List.nodup_nil, joinedPlain normal⟩

theorem joinedSome (some : ts ≠ []) : joined ts ≠ [] := by
  obtain ⟨t, inside⟩ := List.exists_mem_of_ne_nil ts some
  obtain ⟨u, member⟩ := List.exists_mem_of_ne_nil _ (normalSome (normal t inside))
  exact List.ne_nil_of_mem (memJoined.mpr ⟨t, inside, member⟩)

theorem oneOfJoined (some : ts ≠ []) : (oneOf ts).alternatives = joined ts :=
  oneOfAlternatives (joinedPlain normal) (joinedSome normal some)

theorem memOneOfNormal (some : ts ≠ []) : t ∈ (oneOf ts).alternatives ↔ ∃ u ∈ ts, t ∈ u.alternatives := by
  rw [oneOfJoined normal some, memJoined]

end Normal

theorem oneOfOneOf (first : ∀ x ∈ xs, x.isNormal = true) (someFirst : xs ≠ [])
    (second : ∀ y ∈ ys, y.isNormal = true) (someSecond : ys ≠ []) :
    oneOf [oneOf xs, oneOf ys] = oneOf (xs ++ ys) := by
  have same : joined [oneOf xs, oneOf ys] = joined (xs ++ ys) := by
    rw [joinedAppend, joined, List.flatMap_cons, List.flatMap_singleton,
      oneOfJoined first someFirst, oneOfJoined second someSecond]
  rw [oneOf, ← joined, same, joined, ← oneOf]

/-! Conversion by alternatives -/

theorem implicitlyAny (plain : s.isVariant = false) :
    s.toImplicitly t = true ↔ ∃ u ∈ t.alternatives, s.toImplicitly u = true := by
  cases t with
  | variant ts => exact implicitlyInto plain
  | _ => simp [alternatives]

theorem implicitlyAll : s.toImplicitly u = true ↔ ∀ t ∈ s.alternatives, t.toImplicitly u = true := by
  cases s with
  | variant ts => exact implicitlyJoin
  | _ => simp [alternatives]

theorem oneOfFaithful (normal : ∀ x ∈ xs, x.isNormal = true) (some : xs ≠ []) :
    ((oneOf xs).isNormal = true ∧ ∀ ts, oneOf xs = .variant ts → 2 ≤ ts.length) ∧
    (∀ t : ValueType, t.isVariant = false →
      (t.toStrictly (oneOf xs) = true ↔ ∃ x ∈ xs, t.toStrictly x = true) ∧
      (t.toImplicitly (oneOf xs) = true ↔ ∃ x ∈ xs, t.toImplicitly x = true)) ∧
    (∀ u, (oneOf xs).toImplicitly u = true ↔ ∀ x ∈ xs, x.toImplicitly u = true) ∧
    ∀ ys : List ValueType, (∀ y ∈ ys, y.isNormal = true) → ys ≠ [] →
      oneOf [oneOf xs, oneOf ys] = oneOf (xs ++ ys) := by
  have whole := oneOfNormal normal
  refine ⟨⟨whole, fun ts same => ?_⟩, fun t plain => ⟨?_, ?_⟩, fun u => ?_, fun ys => oneOfOneOf normal some⟩
  · exact (variantNormal.mp (same ▸ whole)).1
  · rw [toStrictlyIff plain (normalPlain whole), memOneOfNormal normal some]
    exact exists_congr fun x => and_congr_right fun member =>
      (toStrictlyIff plain (normalPlain (normal x member))).symm
  · rw [implicitlyAny plain]
    simp only [memOneOfNormal normal some]
    constructor
    · rintro ⟨u, ⟨x, member, inside⟩, fits⟩
      exact ⟨x, member, (implicitlyAny plain).mpr ⟨u, inside, fits⟩⟩
    · rintro ⟨x, member, fits⟩
      obtain ⟨u, inside, fits⟩ := (implicitlyAny plain).mp fits
      exact ⟨u, ⟨x, member, inside⟩, fits⟩
  · rw [implicitlyAll]
    simp only [memOneOfNormal normal some]
    constructor
    · exact fun each x member => implicitlyAll.mpr fun t inside => each t ⟨x, member, inside⟩
    · rintro each t ⟨x, member, inside⟩
      exact implicitlyAll.mp (each x member) t inside

def mixedTypes : List ValueType := [.float, .variant [.vec 2, .float]]

theorem oneOfFaithfulMixed :
    ((∀ x ∈ mixedTypes, x.isNormal = true) ∧ mixedTypes ≠ [] ∧ (scalar .int).isVariant = false) ∧
    oneOf mixedTypes = .variant [.float, .vec 2] ∧ (oneOf mixedTypes).isNormal = true ∧
    (scalar .int).toStrictly (oneOf mixedTypes) = false ∧
    (scalar .int).toImplicitly (oneOf mixedTypes) = true ∧
    (oneOf mixedTypes).toImplicitly .anyNumeric = true ∧
    (oneOf mixedTypes).toImplicitly (.scalar .double) = false ∧
    oneOf [oneOf mixedTypes, oneOf [.variant [.vec 2, .bool]]] = .variant [.float, .vec 2, .bool] := by
  have normal : ∀ x ∈ mixedTypes, x.isNormal = true := by decide
  have other : ∀ y ∈ [variant [.vec 2, .bool]], y.isNormal = true := by decide
  obtain ⟨⟨whole, _⟩, below, above, join⟩ := oneOfFaithful normal (List.cons_ne_nil _ _)
  obtain ⟨strictly, implicitly⟩ := below (scalar .int) rfl
  refine ⟨⟨normal, List.cons_ne_nil _ _, rfl⟩, by decide, whole, ?_, implicitly.mpr ?_, (above _).mpr ?_,
    ?_, (join _ other (List.cons_ne_nil _ _)).trans (by decide)⟩
  · exact Bool.eq_false_iff.mpr fun fits => absurd (strictly.mp fits) (by decide)
  · exact ⟨.float, by decide, by decide⟩
  · decide
  · exact Bool.eq_false_iff.mpr fun fits => absurd ((above _).mp fits) (by decide)

end ShaderNet.ValueType

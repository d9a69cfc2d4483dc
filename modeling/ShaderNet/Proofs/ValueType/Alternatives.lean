import ShaderNet.ValueType.Conversion

/-! Alternatives of a type that stands for one of several. -/
namespace ShaderNet.ValueType

def isVariant : ValueType → Bool
  | .variant _ => true
  | _ => false

theorem alternativesSelf {t : ValueType} (plain : t.isVariant = false) : t.alternatives = [t] := by
  cases t <;> first | rfl | cases plain

theorem alternativesEach {ts : List ValueType} (plain : ∀ t ∈ ts, t.isVariant = false) :
    ts.flatMap alternatives = ts := by
  induction ts with
  | nil => rfl
  | cons t rest ih =>
    rw [List.flatMap_cons, alternativesSelf (plain t List.mem_cons_self),
      ih fun u member => plain u (List.mem_cons_of_mem _ member)]
    rfl

theorem memAppendList {t : ValueType} (flat ts : List ValueType) :
    t ∈ ts.foldl append flat ↔ t ∈ flat ∨ t ∈ ts := by
  induction ts generalizing flat with
  | nil => simp
  | cons head rest ih =>
    simp only [List.foldl_cons, ih, append, List.mem_cons]
    split
    · rename_i present
      constructor
      · rintro (old | later)
        · exact .inl old
        · exact .inr (.inr later)
      · rintro (old | rfl | later)
        · exact .inl old
        · exact .inl present
        · exact .inr later
    · simp [or_assoc]

def joined (ts : List ValueType) : List ValueType := (ts.flatMap alternatives).foldl append []

theorem memJoined {t : ValueType} {ts : List ValueType} :
    t ∈ joined ts ↔ ∃ u ∈ ts, t ∈ u.alternatives := by
  simp [joined, memAppendList]

theorem oneOfCases (ts : List ValueType) : (joined ts = [] ∧ oneOf ts = .broken) ∨
    (∃ t, joined ts = [t] ∧ oneOf ts = t) ∨
    (2 ≤ (joined ts).length ∧ oneOf ts = .variant (joined ts)) := by
  rw [oneOf, ← joined]
  rcases joined ts with _ | ⟨t, _ | ⟨u, rest⟩⟩
  · exact .inl ⟨rfl, rfl⟩
  · exact .inr (.inl ⟨t, rfl, rfl⟩)
  · exact .inr (.inr ⟨by simp, rfl⟩)

theorem oneOfAlternatives {ts : List ValueType} (plain : ∀ t ∈ joined ts, t.isVariant = false)
    (some : joined ts ≠ []) : (oneOf ts).alternatives = joined ts := by
  rcases oneOfCases ts with ⟨none, _⟩ | ⟨t, one, same⟩ | ⟨_, same⟩
  · exact absurd none some
  · rw [same, one, alternativesSelf (plain t (one ▸ List.mem_singleton.mpr rfl))]
  · rw [same]
    rfl

/- Types that are no variants are listed as they are, each once. -/
theorem memOneOf {ts : List ValueType} (plain : ∀ t ∈ ts, t.isVariant = false) (some : ts ≠ [])
    (t : ValueType) : t ∈ (oneOf ts).alternatives ↔ t ∈ ts := by
  have listed : ∀ u, u ∈ joined ts ↔ u ∈ ts := by simp [joined, alternativesEach plain, memAppendList]
  obtain ⟨head, member⟩ := List.exists_mem_of_ne_nil ts some
  rw [oneOfAlternatives (fun u member => plain u ((listed u).mp member))
    (List.ne_nil_of_mem ((listed head).mpr member)), listed]

theorem oneOfBroken {ts : List ValueType} (plain : ∀ t ∈ ts, t.isVariant = false) (some : ts ≠ [])
    (sane : .broken ∉ ts) : oneOf ts ≠ .broken := by
  intro broken
  refine sane ((memOneOf plain some .broken).mp ?_)
  rw [broken]
  exact List.mem_singleton.mpr rfl

/- A type that is no variant converts to each of the alternatives and to nothing else. -/
theorem toStrictlyIff {source target : ValueType} (plain : source.isVariant = false)
    (flat : ∀ t ∈ target.alternatives, t.isVariant = false) :
    source.toStrictly target = true ↔ source ∈ target.alternatives := by
  have any : ∀ ts : List ValueType, (∀ t ∈ ts, t.isVariant = false) →
      (anyConvertsStrictly source ts = true ↔ source ∈ ts) := by
    intro ts
    induction ts with
    | nil => simp [anyConvertsStrictly]
    | cons head rest ih =>
      intro flat
      have first : convertsStrictly source head = true ↔ source = head := by
        have plainHead := flat head List.mem_cons_self
        cases head <;> simp_all [convertsStrictly, isVariant]
      simp [anyConvertsStrictly, first, ih fun t member => flat t (List.mem_cons_of_mem _ member)]
  cases target with
  | variant ts =>
    have different : source ≠ .variant ts := by
      rintro rfl
      cases plain
    simp [toStrictly, convertsStrictly, different, any ts flat, alternatives]
  | _ => simp [toStrictly, convertsStrictly, alternatives]

theorem toStrictlyPlain {source target : ValueType} (plain : target.isVariant = false) :
    source.toStrictly target = true ↔ source = target := by
  cases target with
  | variant ts => cases plain
  | _ => simp [toStrictly, convertsStrictly]

def isShape : ValueType → Bool
  | .scalar _ => true
  | .vector _ size => 2 ≤ size && size ≤ 4
  | _ => false

theorem shapePlain {t : ValueType} (shape : t.isShape = true) : t.isVariant = false := by
  cases t <;> first | rfl | cases shape

theorem scalarShaped {base b : Scalar} {size : Nat} :
    .scalar b = shaped base size ↔ base = b ∧ size = 1 := by
  unfold shaped
  split <;> rename_i one <;> simp [one, eq_comm]

theorem vectorShaped {base b : Scalar} {size n : Nat} (several : n ≠ 1) :
    .vector b n = shaped base size ↔ base = b ∧ size = n := by
  unfold shaped
  split <;> rename_i one <;> simp [eq_comm]
  rintro rfl rfl
  exact several one

theorem shapedPlain (base : Scalar) (size : Nat) : (shaped base size).isVariant = false := by
  unfold shaped
  split <;> rfl

theorem shapedSane (base : Scalar) (size : Nat) : shaped base size ≠ .broken := by
  unfold shaped
  split <;> simp

end ShaderNet.ValueType

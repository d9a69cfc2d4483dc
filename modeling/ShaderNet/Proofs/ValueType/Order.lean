import ShaderNet.Proofs.ValueType.Alternatives

/-! Conversion as an order of types. Both ways to convert are reflexive and transitive, the strict one is
part of the implicit one, and a variant is the least type that all of its alternatives convert to. -/
namespace ShaderNet

/-! Promotion -/

namespace Scalar

variable {a b c : Scalar}

theorem promotesIff : a.promotes b = true ↔ Option.Rel (· ≤ ·) a.rank b.rank := by
  unfold promotes
  cases a.rank <;> cases b.rank <;> simp

theorem rankInjective (same : a.rank = b.rank) : a = b := by
  cases a <;> cases b <;> first | rfl | cases same

theorem promotesTrans (first : a.promotes b = true) (second : b.promotes c = true) :
    a.promotes c = true := by
  rw [promotesIff] at first second ⊢
  generalize a.rank = l, b.rank = m, c.rank = n at first second ⊢
  cases first with
  | none => exact second
  | some below =>
    cases second with
    | some above => exact .some (Nat.le_trans below above)

theorem promotesAntisymm (first : a.promotes b = true) (second : b.promotes a = true) : a = b := by
  rw [promotesIff] at first second
  refine rankInjective ?_
  generalize a.rank = l, b.rank = m at first second ⊢
  cases first with
  | none => rfl
  | some below =>
    cases second with
    | some above => rw [Nat.le_antisymm below above]

end Scalar

namespace ValueType

def rebase (t : ValueType) (base : Scalar) : ValueType :=
  match t with
  | .scalar _ => .scalar base
  | .vector _ size => .vector base size
  | .matrix _ rows cols => .matrix base rows cols
  | t => t

theorem rebaseBase {t : ValueType} {a : Scalar} (based : t.base? = some a) (b : Scalar) :
    (t.rebase b).base? = some b := by
  cases t <;> first | rfl | cases based

theorem rebaseSelf {t : ValueType} {a : Scalar} (based : t.base? = some a) : t.rebase a = t := by
  cases t <;> cases based <;> rfl

theorem rebaseTwice (t : ValueType) (a b : Scalar) : (t.rebase a).rebase b = t.rebase b := by
  cases t <;> rfl

variable {s t u : ValueType} {ts : List ValueType}

theorem promotesIff :
    s.promotes t = true ↔ ∃ a b, s.base? = some a ∧ t = s.rebase b ∧ a.promotes b = true := by
  cases s <;> cases t <;> grind [promotes, base?, rebase]

theorem promotesTrans (first : s.promotes t = true) (second : t.promotes u = true) :
    s.promotes u = true := by
  obtain ⟨a, b, based, rfl, below⟩ := promotesIff.mp first
  obtain ⟨b', c, rebased, rfl, above⟩ := promotesIff.mp second
  cases (rebaseBase based b).symm.trans rebased
  exact promotesIff.mpr ⟨a, c, based, rebaseTwice s b c, Scalar.promotesTrans below above⟩

theorem promotesAntisymm (first : s.promotes t = true) (second : t.promotes s = true) : s = t := by
  obtain ⟨a, b, based, rfl, below⟩ := promotesIff.mp first
  obtain ⟨b', c, rebased, back, above⟩ := promotesIff.mp second
  cases (rebaseBase based b).symm.trans rebased
  have same : c = a := by
    rw [rebaseTwice] at back
    have again := rebaseBase based c
    rw [← back, based] at again
    exact (Option.some.inj again).symm
  rw [same] at above
  rw [← Scalar.promotesAntisymm below above, rebaseSelf based]

/-! Conversion of variants -/

/- What holds of all alternatives of a variant may be used to show it of the variant. -/
@[elab_as_elim]
theorem alternativesInduct {motive : ValueType → Prop} (plain : ∀ t, t.isVariant = false → motive t)
    (variant : ∀ ts, (∀ t ∈ ts, motive t) → motive (.variant ts)) : ∀ t, motive t
  | .variant ts => variant ts fun t _ => alternativesInduct plain variant t
  | .scalar _ | .vector _ _ | .matrix _ _ _ | .sampler | .broken => plain _ rfl

theorem strictlyInto :
    s.toStrictly (.variant ts) = true ↔ s = .variant ts ∨ ∃ t ∈ ts, s.toStrictly t = true := by
  have any : anyConvertsStrictly s ts = true ↔ ∃ t ∈ ts, s.toStrictly t = true := by
    induction ts with
    | nil => simp [anyConvertsStrictly]
    | cons t rest ih => simp [anyConvertsStrictly, ih, toStrictly]
  simp [toStrictly, convertsStrictly, any]

theorem implicitlyFrom :
    (variant ts).toImplicitly u = true ↔ .variant ts = u ∨ ∀ t ∈ ts, t.toImplicitly u = true := by
  have all : allConvertImplicitly u ts = true ↔ ∀ t ∈ ts, t.toImplicitly u = true := by
    induction ts with
    | nil => simp [allConvertImplicitly]
    | cons t rest ih => simp [allConvertImplicitly, ih, toImplicitly]
  simp [toImplicitly, convertsImplicitly, all]

theorem implicitlyFeeds (plain : s.isVariant = false) : s.toImplicitly t = feedsImplicitly s t := by
  cases s with
  | variant ss => cases plain
  | _ => simp [toImplicitly, convertsImplicitly]

theorem implicitlyInto (plain : s.isVariant = false) :
    s.toImplicitly (.variant ts) = true ↔ ∃ t ∈ ts, s.toImplicitly t = true := by
  have any : feedsAnyImplicitly s ts = true ↔ ∃ t ∈ ts, feedsImplicitly s t = true := by
    induction ts with
    | nil => simp [feedsAnyImplicitly]
    | cons t rest ih => simp [feedsAnyImplicitly, ih]
  have different : s ≠ .variant ts := by
    rintro rfl
    cases plain
  simp [implicitlyFeeds plain, feedsImplicitly, any, different]

theorem implicitlyPlain (plain : s.isVariant = false) (target : t.isVariant = false) :
    s.toImplicitly t = true ↔ s = t ∨ s.promotes t = true := by
  rw [implicitlyFeeds plain]
  cases t with
  | variant ts => cases target
  | _ => simp [feedsImplicitly]

/-! The order -/

theorem strictlyRefl (t : ValueType) : t.toStrictly t = true := by
  cases t with
  | variant ts => exact strictlyInto.mpr (.inl rfl)
  | _ => exact (toStrictlyPlain rfl).mpr rfl

theorem implicitlyRefl (t : ValueType) : t.toImplicitly t = true := by
  cases t with
  | variant ts => exact implicitlyFrom.mpr (.inl rfl)
  | _ => exact (implicitlyPlain rfl rfl).mpr (.inl rfl)

/- A variant is above all that is below one of its alternatives, also where that is a variant itself. -/
theorem implicitlyAlternative (fits : s.toImplicitly t = true) (member : t ∈ ts) :
    s.toImplicitly (.variant ts) = true := by
  induction s using alternativesInduct generalizing t ts with
  | plain s plain => exact (implicitlyInto plain).mpr ⟨t, member, fits⟩
  | variant inner ih =>
    refine implicitlyFrom.mpr (.inr fun s inside => ?_)
    rcases implicitlyFrom.mp fits with rfl | each
    · exact ih s inside (ih s inside (implicitlyRefl s) inside) member
    · exact ih s inside (each s inside) member

theorem implicitlyJoin :
    (variant ts).toImplicitly u = true ↔ ∀ t ∈ ts, t.toImplicitly u = true := by
  refine ⟨fun fits t member => ?_, fun each => implicitlyFrom.mpr (.inr each)⟩
  rcases implicitlyFrom.mp fits with rfl | each
  · exact implicitlyAlternative (implicitlyRefl t) member
  · exact each t member

/- From the source to the target: each type is opened as soon as those before it are no variants. -/
theorem implicitlyTrans (first : s.toImplicitly t = true) (second : t.toImplicitly u = true) :
    s.toImplicitly u = true := by
  induction s using alternativesInduct with
  | variant ss ih =>
    exact implicitlyJoin.mpr fun s member => ih s member (implicitlyJoin.mp first s member)
  | plain s source =>
    induction t using alternativesInduct with
    | variant ts ih =>
      obtain ⟨t, member, fits⟩ := (implicitlyInto source).mp first
      exact ih t member (implicitlyJoin.mp second t member) fits
    | plain t middle =>
      induction u using alternativesInduct with
      | variant us ih =>
        obtain ⟨u, member, fits⟩ := (implicitlyInto middle).mp second
        exact implicitlyAlternative (ih u member fits) member
      | plain u target =>
        rcases (implicitlyPlain source middle).mp first with rfl | below
        · exact second
        · rcases (implicitlyPlain middle target).mp second with rfl | above
          · exact first
          · exact (implicitlyPlain source target).mpr (.inr (promotesTrans below above))

theorem strictlyTrans (first : s.toStrictly t = true) (second : t.toStrictly u = true) :
    s.toStrictly u = true := by
  induction u using alternativesInduct with
  | plain u plain => exact (toStrictlyPlain plain).mp second ▸ first
  | variant us ih =>
    rcases strictlyInto.mp second with rfl | ⟨u, member, fits⟩
    · exact first
    · exact strictlyInto.mpr (.inr ⟨u, member, ih u member fits⟩)

theorem strictlyImplicitly (fits : s.toStrictly t = true) : s.toImplicitly t = true := by
  induction t using alternativesInduct with
  | plain t plain => exact (toStrictlyPlain plain).mp fits ▸ implicitlyRefl s
  | variant ts ih =>
    rcases strictlyInto.mp fits with rfl | ⟨t, member, inner⟩
    · exact implicitlyRefl _
    · exact implicitlyAlternative (ih t member inner) member

theorem implicitlyAntisymm (source : s.isVariant = false) (target : t.isVariant = false)
    (first : s.toImplicitly t = true) (second : t.toImplicitly s = true) : s = t := by
  rcases (implicitlyPlain source target).mp first with same | below
  · exact same
  · rcases (implicitlyPlain target source).mp second with same | above
    · exact same.symm
    · exact promotesAntisymm below above

theorem conversionsOrdered :
    (∀ t : ValueType, t.toImplicitly t = true ∧ t.toStrictly t = true) ∧
    (∀ s t u : ValueType, s.toImplicitly t = true → t.toImplicitly u = true → s.toImplicitly u = true) ∧
    (∀ s t u : ValueType, s.toStrictly t = true → t.toStrictly u = true → s.toStrictly u = true) ∧
    (∀ s t : ValueType, s.toStrictly t = true → s.toImplicitly t = true) ∧
    (∀ s t : ValueType, s.isVariant = false → t.isVariant = false → s.toImplicitly t = true →
      t.toImplicitly s = true → s = t) ∧
    ∀ (ts : List ValueType) (u : ValueType),
      (variant ts).toImplicitly u = true ↔ ∀ t ∈ ts, t.toImplicitly u = true :=
  ⟨fun t => ⟨implicitlyRefl t, strictlyRefl t⟩, fun _ _ _ => implicitlyTrans, fun _ _ _ => strictlyTrans,
    fun _ _ => strictlyImplicitly, fun _ _ => implicitlyAntisymm, fun _ _ => implicitlyJoin⟩

def nestedWhole : ValueType := .variant [.variant [.scalar .int, .scalar .uint], .variant []]

def nestedReal : ValueType := .variant [.variant [], .float]

theorem conversionsOrderedNested :
    (nestedWhole.toImplicitly nestedReal = true ∧ nestedReal.toImplicitly (.scalar .double) = true ∧
      nestedWhole.toImplicitly (.scalar .double) = true) ∧
    ((scalar .uint).toStrictly (.variant [.scalar .int, .scalar .uint]) = true ∧
      (variant [.scalar .int, .scalar .uint]).toStrictly nestedWhole = true ∧
      (scalar .uint).toStrictly nestedWhole = true ∧ (scalar .uint).toImplicitly nestedWhole = true) ∧
    (vec 3).isVariant = false ∧ (shaped .float 3).toImplicitly (.vec 3) = true ∧
      (vec 3).toImplicitly (shaped .float 3) = true ∧ shaped .float 3 = .vec 3 := by
  obtain ⟨_, trans, strictTrans, implicit, antisymm, _⟩ := conversionsOrdered
  have low : nestedWhole.toImplicitly nestedReal = true := by decide
  have high : nestedReal.toImplicitly (.scalar .double) = true := by decide
  have inner : (scalar .uint).toStrictly (.variant [.scalar .int, .scalar .uint]) = true := by decide
  have outer : (variant [.scalar .int, .scalar .uint]).toStrictly nestedWhole = true := by decide
  have there : (shaped .float 3).toImplicitly (.vec 3) = true := by decide
  have back : (vec 3).toImplicitly (shaped .float 3) = true := by decide
  have chain := strictTrans _ _ _ inner outer
  exact ⟨⟨low, high, trans _ _ _ low high⟩, ⟨inner, outer, chain, implicit _ _ chain⟩,
    rfl, there, back, antisymm _ _ (shapedPlain _ _) rfl there back⟩

end ValueType
end ShaderNet

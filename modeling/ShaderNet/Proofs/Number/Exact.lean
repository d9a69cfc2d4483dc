import Mathlib.Algebra.Order.Field.Power
import Mathlib.Data.Rat.Cast.Order
import Mathlib.Tactic.FieldSimp
import Mathlib.Tactic.Positivity
import ShaderNet.Proofs.Number.Numeral

/-! Rounding. What a fraction is rounded to depends on its value alone, and a value that a format has is
rounded to itself. So a decimal is read with a single rounding if its digits and its power of ten are
numbers themselves. -/
namespace ShaderNet.Number

theorem twoToPositive (n : Nat) : 0 < twoTo n := Nat.pow_pos (by decide)
theorem tenToPositive (n : Nat) : 0 < tenTo n := Nat.pow_pos (by decide)

theorem powerRatio (b : Nat) (k : Int) :
    ((b ^ k.toNat : Nat) : ℚ) / (b ^ (-k).toNat : Nat) = b ^ k := by
  rcases Int.le_total 0 k with positive | negative
  · obtain ⟨n, rfl⟩ := Int.eq_ofNat_of_zero_le positive
    simp
  · obtain ⟨n, rfl⟩ := Int.exists_eq_neg_ofNat negative
    simp

theorem twoToRatio (k : Int) : (twoTo k.toNat : ℚ) / twoTo (-k).toNat = 2 ^ k := powerRatio 2 k
theorem tenToRatio (k : Int) : (tenTo k.toNat : ℚ) / tenTo (-k).toNat = 10 ^ k := powerRatio 10 k

/-! Fractions of one value -/

theorem floorLogBounds {n d : Nat} (some : 0 < n) (positive : 0 < d) :
    (2 : ℚ) ^ floorLog n d ≤ n / d ∧ (n : ℚ) / d < 2 ^ (floorLog n d + 1) := by
  have bottom : (0 : ℚ) < d := Nat.cast_pos.mpr positive
  have two : (2 : ℚ) ≠ 0 := by decide
  have reaches : ∀ l : Int, d * twoTo l.toNat ≤ n * twoTo (-l).toNat ↔ (2 : ℚ) ^ l ≤ n / d := by
    intro l
    have unit : (0 : ℚ) < twoTo (-l).toNat := Nat.cast_pos.mpr (twoToPositive _)
    rw [← twoToRatio, div_le_div_iff₀ unit bottom, mul_comm, ← Nat.cast_mul, ← Nat.cast_mul,
      Nat.cast_le]
  have above : (n : ℚ) / d < 2 ^ ((n.log2 : Int) - d.log2 + 1) := by
    have most : (n : ℚ) < 2 ^ (n.log2 + 1) := by exact_mod_cast Nat.lt_log2_self
    have least : (2 : ℚ) ^ d.log2 ≤ d := by exact_mod_cast Nat.log2_self_le positive.ne'
    calc (n : ℚ) / d < 2 ^ (n.log2 + 1) / d := by gcongr
      _ ≤ 2 ^ (n.log2 + 1) / 2 ^ d.log2 := by gcongr
      _ = 2 ^ ((n.log2 : Int) - d.log2 + 1) := by
        rw [sub_add_eq_add_sub, zpow_sub₀ two, zpow_natCast, ← Nat.cast_succ, zpow_natCast]
  have below : (2 : ℚ) ^ ((n.log2 : Int) - d.log2 - 1) ≤ n / d := by
    have least : (2 : ℚ) ^ n.log2 ≤ n := by exact_mod_cast Nat.log2_self_le some.ne'
    have most : (d : ℚ) ≤ 2 ^ (d.log2 + 1) := by exact_mod_cast Nat.lt_log2_self.le
    calc (2 : ℚ) ^ ((n.log2 : Int) - d.log2 - 1) = 2 ^ n.log2 / 2 ^ (d.log2 + 1) := by
          rw [sub_sub, zpow_sub₀ two, zpow_natCast, ← Nat.cast_succ, zpow_natCast]
      _ ≤ n / 2 ^ (d.log2 + 1) := by gcongr
      _ ≤ n / d := by gcongr
  unfold floorLog
  dsimp only
  split
  · rename_i reached
    exact ⟨(reaches _).mp reached, above⟩
  · rename_i missed
    rw [sub_add_cancel]
    exact ⟨below, not_le.mp fun low => missed ((reaches _).mpr low)⟩

theorem floorLogUnique {n d : Nat} {l : Int} (some : 0 < n) (positive : 0 < d)
    (low : (2 : ℚ) ^ l ≤ n / d) (high : (n : ℚ) / d < 2 ^ (l + 1)) : floorLog n d = l := by
  have bounds := floorLogBounds some positive
  have first := (zpow_lt_zpow_iff_right₀ (one_lt_two (α := ℚ))).mp (bounds.1.trans_lt high)
  have second := (zpow_lt_zpow_iff_right₀ (one_lt_two (α := ℚ))).mp (low.trans_lt bounds.2)
  omega

theorem nearestScaled {c : Nat} (positive : 0 < c) (n d : Nat) :
    nearest (n * c) (d * c) = nearest n d := by
  have whole : n * c / (d * c) = n / d := Nat.mul_div_mul_right n d positive
  have rest : n * c % (d * c) = n % d * c := Nat.mul_mod_mul_right c n d
  have more : d * c < 2 * (n % d * c) ↔ d < 2 * (n % d) := by
    rw [← Nat.mul_assoc]
    exact Nat.mul_lt_mul_right positive
  have half : 2 * (n % d * c) = d * c ↔ 2 * (n % d) = d := by
    rw [← Nat.mul_assoc]
    exact Nat.mul_left_inj positive.ne'
  simp only [nearest, whole, rest, more, half]

theorem nearestSame {n d m e : Nat} (left : 0 < d) (right : 0 < e) (same : n * e = m * d) :
    nearest n d = nearest m e := by
  rw [← nearestScaled right n d, same, Nat.mul_comm d e, nearestScaled left]

namespace Format

variable {f : Format}

def round (f : Format) (n d : Nat) : Nat :=
  if n = 0 then 0
  else
    let q := max f.lowest (floorLog n d - f.fraction)
    (q - f.lowest).toNat * twoTo f.fraction + nearest (n * twoTo (-q).toNat) (d * twoTo q.toNat)

theorem roundSame {n d m e : Nat} (left : 0 < d) (right : 0 < e) (same : n * e = m * d) :
    f.round n d = f.round m e := by
  rcases Nat.eq_zero_or_pos n with rfl | some
  · have none : m = 0 := by
      rw [Nat.zero_mul] at same
      exact (Nat.mul_eq_zero.mp same.symm).resolve_right left.ne'
    rw [none, round, round, if_pos rfl, if_pos rfl]
  · have other : 0 < m := by
      refine Nat.pos_of_ne_zero fun none => ?_
      rw [none, Nat.zero_mul] at same
      exact (Nat.mul_pos some right).ne' same
    have ratio : (n : ℚ) / d = m / e := by
      rw [div_eq_div_iff (by exact_mod_cast left.ne') (by exact_mod_cast right.ne')]
      exact_mod_cast same
    have bounds := floorLogBounds other right
    rw [← ratio] at bounds
    rw [round, round, if_neg some.ne', if_neg other.ne', floorLogUnique some left bounds.1 bounds.2]
    dsimp only
    congr 1
    refine nearestSame (Nat.mul_pos left (twoToPositive _)) (Nat.mul_pos right (twoToPositive _)) ?_
    rw [Nat.mul_mul_mul_comm, same, Nat.mul_mul_mul_comm]

/-! Values of a format -/

def magnitude (f : Format) (word : Nat) : ℚ := f.significand word * 2 ^ f.scale word

theorem magnitudeRatio (f : Format) (word : Nat) : f.magnitude word =
    ((f.significand word * twoTo (f.scale word).toNat : Nat) : ℚ) / twoTo (-f.scale word).toNat := by
  rw [magnitude, ← twoToRatio, Nat.cast_mul, mul_div_assoc]

/- What is counted may have one digit more than a word has room for; then the next power counts. -/
theorem magnitudeSteps {q : Int} {m : Nat} (above : f.lowest ≤ q)
    (least : q = f.lowest ∨ twoTo f.fraction ≤ m) (most : m ≤ 2 * twoTo f.fraction) :
    f.magnitude ((q - f.lowest).toNat * twoTo f.fraction + m) = m * 2 ^ q := by
  have power := twoToPositive f.fraction
  obtain ⟨steps, rfl⟩ : ∃ steps : Nat, q = f.lowest + steps := ⟨(q - f.lowest).toNat, by omega⟩
  have index : (f.lowest + steps - f.lowest).toNat = steps := by omega
  rw [index, magnitude, significand, scale, Nat.add_comm, Nat.add_mul_div_right _ _ power,
    Nat.add_mul_mod_self_right]
  rcases Nat.lt_or_ge m (twoTo f.fraction) with small | big
  · have none : steps = 0 := by omega
    rw [none, Nat.zero_mul, Nat.add_zero, if_pos small, Nat.div_eq_of_lt small]
  · rw [if_neg (by omega)]
    rcases Nat.lt_or_eq_of_le most with less | rfl
    · have one : m / twoTo f.fraction = 1 := Nat.div_eq_of_lt_le (by omega) (by omega)
      rw [Nat.mod_eq_sub_mod big, Nat.mod_eq_of_lt (by omega), Nat.add_sub_cancel' big, one,
        Nat.add_sub_cancel_left]
    · rw [Nat.mul_mod_left, Nat.mul_div_cancel _ power, show 2 + steps - 1 = steps + 1 by omega,
        Nat.add_zero, Nat.cast_succ, ← add_assoc, zpow_add_one₀ two_ne_zero, Nat.cast_mul,
        Nat.cast_ofNat, mul_comm 2, mul_assoc, mul_comm 2]

theorem logExact {m : Nat} {q l : Int} (low : (2 : ℚ) ^ l ≤ m) (high : (m : ℚ) < 2 ^ (l + 1)) :
    floorLog (m * twoTo q.toNat) (twoTo (-q).toNat) = l + q := by
  have unit : (0 : ℚ) < 2 ^ q := by positivity
  have some : 0 < m := by
    refine Nat.pos_of_ne_zero fun none => ?_
    rw [none, Nat.cast_zero] at low
    exact absurd low (not_le.mpr (by positivity))
  have ratio : ((m * twoTo q.toNat : Nat) : ℚ) / twoTo (-q).toNat = m * 2 ^ q := by
    rw [← twoToRatio, Nat.cast_mul, mul_div_assoc]
  refine floorLogUnique (Nat.mul_pos some (twoToPositive _)) (twoToPositive _) ?_ ?_ <;> rw [ratio]
  · rw [zpow_add₀ two_ne_zero]
    gcongr
  · rw [add_right_comm, zpow_add₀ two_ne_zero]
    gcongr

theorem nearestExact (m : Nat) (q : Int) :
    nearest (m * twoTo q.toNat * twoTo (-q).toNat) (twoTo (-q).toNat * twoTo q.toNat) = m := by
  have one : nearest m 1 = m := by simp [nearest, Nat.mod_one]
  rw [nearestSame (Nat.mul_pos (twoToPositive _) (twoToPositive _)) Nat.one_pos (m := m), one]
  rw [Nat.mul_one, Nat.mul_assoc, Nat.mul_comm (twoTo q.toNat)]

theorem roundScaled {m : Nat} {q l : Int} (low : (2 : ℚ) ^ l ≤ m) (high : (m : ℚ) < 2 ^ (l + 1))
    (top : max f.lowest (l + q - f.fraction) = q) :
    f.round (m * twoTo q.toNat) (twoTo (-q).toNat) =
      (q - f.lowest).toNat * twoTo f.fraction + m := by
  have some : m ≠ 0 := by
    rintro rfl
    rw [Nat.cast_zero] at low
    exact absurd low (not_le.mpr (by positivity))
  rw [round, if_neg (Nat.mul_ne_zero some (twoToPositive _).ne'), logExact low high]
  dsimp only
  rw [top, nearestExact]

/- A word below the first power counts units; any other holds a power and what it has beyond it. -/
theorem roundWord (f : Format) (word : Nat) :
    f.round (f.significand word * twoTo (f.scale word).toNat) (twoTo (-f.scale word).toNat) = word := by
  have power := twoToPositive f.fraction
  rcases Nat.lt_or_ge word (twoTo f.fraction) with small | big
  · have count : f.significand word = word := if_pos small
    have lowest : f.scale word = f.lowest := by simp [scale, Nat.div_eq_of_lt small]
    rw [count, lowest]
    rcases Nat.eq_zero_or_pos word with rfl | some
    · rw [Nat.zero_mul, round, if_pos rfl]
    · have short : word.log2 < f.fraction := (Nat.log2_lt some.ne').mpr small
      have low : (2 : ℚ) ^ (word.log2 : Int) ≤ word := by exact_mod_cast Nat.log2_self_le some.ne'
      have high : (word : ℚ) < 2 ^ ((word.log2 : Int) + 1) := by exact_mod_cast Nat.lt_log2_self
      rw [roundScaled low high (by omega), Int.sub_self]
      simp
  · have count : f.significand word = twoTo f.fraction + word % twoTo f.fraction :=
      if_neg (Nat.not_lt.mpr big)
    have whole : 1 ≤ word / twoTo f.fraction := Nat.div_pos big power
    have rest := Nat.mod_lt word power
    have low : (2 : ℚ) ^ (f.fraction : Int) ≤ f.significand word := by
      have least : twoTo f.fraction ≤ f.significand word := by omega
      exact_mod_cast least
    have high : (f.significand word : ℚ) < 2 ^ ((f.fraction : Int) + 1) := by
      have most : f.significand word < twoTo f.fraction * 2 := by omega
      exact_mod_cast most
    have steps : (f.scale word - f.lowest).toNat = word / twoTo f.fraction - 1 := by
      unfold scale
      omega
    rw [roundScaled low high (by unfold scale; omega), steps, count, ← Nat.add_assoc,
      ← Nat.succ_mul, Nat.succ_eq_add_one, Nat.sub_add_cancel whole, Nat.mul_comm]
    exact Nat.div_add_mod word _

theorem roundExact {n d word : Nat} (positive : 0 < d) (exact : (n : ℚ) / d = f.magnitude word) :
    f.round n d = word := by
  rw [magnitudeRatio, div_eq_div_iff (by exact_mod_cast positive.ne')
    (by exact_mod_cast (twoToPositive _).ne')] at exact
  rw [← roundWord f word]
  exact roundSame positive (twoToPositive _) (by exact_mod_cast exact)

end Format

/-! Operations -/

namespace Binary

variable {f : Format}

theorem wordOfFinite {s t : Bool} {word : Nat} {w : Fin f.infinity}
    (same : (ofWord s word : Binary f) = .finite t w) : word = w := by
  unfold ofWord at same
  split at same
  · exact congrArg Fin.val (Binary.finite.inj same).2
  · cases same

theorem ofRatioRound (s : Bool) (n d : Nat) : (ofRatio s n d : Binary f) = ofWord s (f.round n d) := by
  unfold ofRatio Format.round
  split <;> rfl

theorem ofRatioSame (s : Bool) {n d m e : Nat} (left : 0 < d) (right : 0 < e)
    (same : (n : ℚ) / d = m / e) : (ofRatio s n d : Binary f) = ofRatio s m e := by
  rw [div_eq_div_iff (by exact_mod_cast left.ne') (by exact_mod_cast right.ne')] at same
  rw [ofRatioRound, ofRatioRound, Format.roundSame left right (by exact_mod_cast same)]

theorem ofRatioExact (s : Bool) {n d : Nat} {w : Fin f.infinity} (positive : 0 < d)
    (exact : (n : ℚ) / d = f.magnitude w) : ofRatio s n d = .finite s w := by
  rw [ofRatioRound, Format.roundExact positive exact, ofWordFinite w.isLt]

theorem mulExact (s t : Bool) {w v : Fin f.infinity} {n d : Nat} (positive : 0 < d)
    (same : f.magnitude w * f.magnitude v = n / d) :
    mul (.finite s w) (.finite t v) = ofRatio (s ^^ t) n d := by
  refine ofRatioSame _ (twoToPositive _) positive ?_
  rw [← same, Nat.cast_mul, Nat.cast_mul, mul_div_assoc, twoToRatio, zpow_add₀ two_ne_zero,
    Format.magnitude, Format.magnitude, mul_mul_mul_comm]

theorem divExact (s t : Bool) {w v : Fin f.infinity} {n d : Nat} (positive : 0 < d) (some : v.val ≠ 0)
    (same : f.magnitude w / f.magnitude v = n / d) :
    div (.finite s w) (.finite t v) = ofRatio (s ^^ t) n d := by
  have divisor : 0 < f.significand v := Decimal.significandPositive (Nat.pos_of_ne_zero some)
  have split : div (.finite s w) (.finite t v) =
      (ofRatio (s ^^ t) (f.significand w * twoTo (f.scale w - f.scale v).toNat)
        (f.significand v * twoTo (-(f.scale w - f.scale v)).toNat) : Binary f) := if_neg some
  rw [split]
  refine ofRatioSame _ (Nat.mul_pos divisor (twoToPositive _)) positive ?_
  rw [← same, Nat.cast_mul, Nat.cast_mul, mul_div_mul_comm, twoToRatio, zpow_sub₀ two_ne_zero,
    Format.magnitude, Format.magnitude, mul_div_mul_comm]

end Binary

/-! Doubles -/

theorem Format.magnitudeZero (f : Format) : f.magnitude 0 = 0 := by
  simp [magnitude, significand, twoToPositive]

/- Up to fifty-three digits are held with the first of them in front of the fraction. -/
theorem Format.doubleHas {m : Nat} {k : Int} (small : m < twoTo 53) (least : -1022 ≤ k)
    (most : k ≤ 900) : ∃ w : Fin double.infinity, double.magnitude w = m * 2 ^ k := by
  rcases Nat.eq_zero_or_pos m with rfl | some
  · exact ⟨⟨0, by decide⟩, by simp [magnitudeZero]⟩
  · have short : m.log2 < 53 := (Nat.log2_lt some.ne').mpr small
    have power : twoTo double.fraction = 4503599627370496 := rfl
    have filled : 2 ^ m.log2 * 2 ^ (52 - m.log2) = 4503599627370496 := by
      rw [← Nat.pow_add, Nat.add_sub_cancel' (by omega)]
    have low : 4503599627370496 ≤ m * 2 ^ (52 - m.log2) := by
      rw [← filled]
      exact Nat.mul_le_mul_right _ (Nat.log2_self_le some.ne')
    have high : m * 2 ^ (52 - m.log2) < 2 * 4503599627370496 := by
      rw [← filled, ← Nat.mul_assoc, Nat.mul_comm 2, ← Nat.pow_succ]
      exact Nat.mul_lt_mul_of_pos_right Nat.lt_log2_self (Nat.pow_pos (by decide))
    have lowest : double.lowest = -1074 := rfl
    have finite : ((m.log2 + k - 52 : Int) - double.lowest).toNat * twoTo double.fraction +
        m * 2 ^ (52 - m.log2) < double.infinity := by
      rw [power, lowest, show double.infinity = 9218868437227405312 from rfl]
      omega
    have exponent : ((52 - m.log2 : Nat) : Int) + ((m.log2 : Int) + k - 52) = k := by omega
    refine ⟨⟨_, finite⟩, ?_⟩
    rw [magnitudeSteps (by omega) (.inr (by omega)) (by omega), Nat.cast_mul, Nat.cast_pow, mul_assoc,
      Nat.cast_ofNat, ← zpow_natCast 2 (52 - m.log2), ← zpow_add₀ two_ne_zero, exponent]

theorem Binary.convertExact {f g : Format} (s : Bool) {v : Fin f.infinity} {w : Fin g.infinity}
    (same : f.magnitude v = g.magnitude w) :
    ((.finite s v : Binary f).convert : Binary g) = .finite s w :=
  ofRatioExact s (twoToPositive _) ((f.magnitudeRatio v).symm.trans same)

namespace Double

theorem ofNaturalExact {m : Nat} (small : m < twoTo 53) (s : Bool) :
    ∃ w, (Binary.ofRatio s m 1 : Double) = .finite s w ∧ Format.double.magnitude w = m := by
  obtain ⟨w, same⟩ := Format.doubleHas small (k := 0) (by decide) (by decide)
  rw [zpow_zero, mul_one] at same
  exact ⟨w, Binary.ofRatioExact s Nat.one_pos (by rw [same, Nat.cast_one, div_one]), same⟩

theorem powerOfTenExact {k : Nat} (few : k ≤ 22) :
    ∃ v, powerOfTen k = .finite false v ∧ Format.double.magnitude v = 10 ^ k := by
  have small : 5 ^ k < twoTo 53 :=
    (Nat.pow_le_pow_right (by decide) few).trans_lt (by decide : 5 ^ 22 < twoTo 53)
  obtain ⟨v, same⟩ := Format.doubleHas small (k := k) (by omega) (by omega)
  have ten : Format.double.magnitude v = 10 ^ k := by
    rw [same, Nat.cast_pow, Nat.cast_ofNat, zpow_natCast, ← mul_pow]
    norm_num
  refine ⟨v, Binary.ofRatioExact false Nat.one_pos ?_, ten⟩
  rw [ten, Nat.cast_one, div_one]
  exact_mod_cast rfl

/- Both the significand and the power are held exactly, so that only their product is rounded. -/
theorem ofScientificExact {m : Nat} {e : Int} (small : m < twoTo 53) (low : -22 ≤ e) (high : e ≤ 22)
    {s : Bool} {w : Fin Format.double.infinity}
    (reads : (Decimal.toBinary s ⟨m, e⟩ : Double) = .finite s w) :
    ofScientific? s m e = some (.finite s w) := by
  obtain ⟨v, first, count⟩ := ofNaturalExact small s
  unfold ofScientific?
  rw [first]
  dsimp only
  split
  · rename_i negative
    obtain ⟨u, second, power⟩ := powerOfTenExact (k := (-e).toNat) (by omega)
    have some : u.val ≠ 0 := by
      intro none
      rw [none, Format.magnitudeZero] at power
      exact absurd power.symm (by positivity)
    have ratio : (Decimal.toBinary s ⟨m, e⟩ : Double) = .ofRatio s m (tenTo (-e).toNat) := by
      have none : e.toNat = 0 := by omega
      rw [Decimal.toBinary, none]
      exact congrArg (Binary.ofRatio s · _) (Nat.mul_one m)
    have scaled : (Binary.finite s v : Double).div (.finite false u) = .finite s w := by
      rw [Binary.divExact s false (tenToPositive (-e).toNat) some (n := m), Bool.xor_false, ← ratio,
        reads]
      rw [count, power]
      exact_mod_cast rfl
    have near : (-e).toNat ≤ 308 := by omega
    rw [scaleDown, if_pos near, second, scaled]
  · rename_i positive
    obtain ⟨u, second, power⟩ := powerOfTenExact (k := e.toNat) (by omega)
    have ratio : (Decimal.toBinary s ⟨m, e⟩ : Double) = .ofRatio s (m * tenTo e.toNat) 1 := by
      have none : (-e).toNat = 0 := by omega
      rw [Decimal.toBinary, none]
      rfl
    have scaled : (Binary.finite s v : Double).mul (.finite false u) = .finite s w := by
      rw [Binary.mulExact s false Nat.one_pos (n := m * tenTo e.toNat), Bool.xor_false, ← ratio, reads]
      rw [count, power, Nat.cast_one, div_one]
      exact_mod_cast rfl
    rw [if_pos (by omega), second, scaled]
    rfl

end Double

/-! Decimals -/

namespace Decimal

variable {f : Format} {tie : Tie} {word : Nat}

def value (x : Decimal) : ℚ := x.digits * 10 ^ x.exponent

theorem valueRatio (x : Decimal) :
    ((x.digits * tenTo x.exponent.toNat : Nat) : ℚ) / tenTo (-x.exponent).toNat = x.value := by
  rw [value, ← tenToRatio, Nat.cast_mul, mul_div_assoc]

theorem toBinarySame (s : Bool) {x y : Decimal} (same : x.value = y.value) :
    (x.toBinary s : Binary f) = y.toBinary s := by
  refine Binary.ofRatioSame s (tenToPositive _) (tenToPositive _) ?_
  rw [valueRatio, valueRatio, same]

theorem toBinaryExact (s : Bool) {x : Decimal} {w : Fin f.infinity} (exact : x.value = f.magnitude w) :
    x.toBinary s = .finite s w :=
  Binary.ofRatioExact s (tenToPositive _) ((valueRatio x).trans exact)

theorem tidyValue (x : Decimal) : x.tidy.value = x.value := by
  unfold tidy
  split
  · rename_i whole
    have count : (x.digits : ℚ) = (x.digits / 10 : Nat) * 10 := by
      exact_mod_cast (Nat.div_mul_cancel (Nat.dvd_of_mod_eq_zero whole)).symm
    rw [value, value, count, zpow_add_one₀ (by decide), mul_assoc, mul_comm 10]
  · rfl

theorem exactValue (n : Nat) (q : Int) : (exact n q).value = n * 2 ^ q := by
  unfold exact value
  split
  · rename_i positive
    obtain ⟨k, rfl⟩ := Int.eq_ofNat_of_zero_le positive
    simp [twoTo]
  · rename_i negative
    obtain ⟨k, rfl⟩ := Int.exists_eq_neg_ofNat (Int.le_of_lt (Int.not_le.mp negative))
    have ten : (10 : ℚ) ^ k = 5 ^ k * 2 ^ k := by
      rw [← mul_pow]
      norm_num
    have five : (5 : ℚ) ^ k ≠ 0 := by positivity
    simp only [neg_neg, Int.toNat_natCast, Nat.pow_eq, Nat.cast_mul, Nat.cast_pow, Nat.cast_ofNat,
      zpow_neg, zpow_natCast, ten, mul_inv]
    rw [mul_assoc, mul_inv_cancel_left₀ five]

theorem readsSigned {x : Decimal} {w : Fin f.infinity} (reads : readsAs f w x = true) (s : Bool) :
    x.toBinary s = .finite s w := by
  rw [readsAs, decide_eq_true_eq, toBinary, Binary.ofRatioRound, Binary.ofWordFinite w.isLt] at reads
  rw [toBinary, Binary.ofRatioRound, Binary.wordOfFinite reads, Binary.ofWordFinite w.isLt]

/- Numerals that were tried read back, and one with all digits stands for the number itself. -/
theorem shortestReads (s : Bool) (w : Fin f.infinity) :
    ((shortest f tie w).toBinary s : Binary f) = .finite s w := by
  unfold shortest
  dsimp only
  split
  · rename_i x found
    obtain ⟨count, _, near⟩ := List.exists_of_findSome?_eq_some found
    rw [toBinarySame s (tidyValue x)]
    exact readsSigned (nearReads near) s
  · exact toBinaryExact s (exactValue _ _)

end Decimal
end ShaderNet.Number

/-! Numerals -/

namespace ShaderNet.Json
open Number

variable {ds fs : List Nat} {m : Nat}

theorem countGrows (m : Nat) (ds : List Nat) : m ≤ ds.foldl (fun n d => n * 10 + d) m := by
  induction ds generalizing m with
  | nil => exact Nat.le_refl m
  | cons d rest ih => exact Nat.le_trans (by omega) (ih (m * 10 + d))

theorem takeWholeFits (e : Int) (fits : ds.foldl (fun n d => n * 10 + d) m ≤ largestWord) :
    takeWhole m e ds = (ds.foldl (fun n d => n * 10 + d) m, e) := by
  induction ds generalizing m with
  | nil => rfl
  | cons d rest ih => rw [takeWhole, if_pos ((countGrows _ rest).trans fits), ih fits, List.foldl_cons]

theorem takeFractionFits (e : Int) (fits : ds.foldl (fun n d => n * 10 + d) m ≤ largestWord) :
    takeFraction m e ds = (ds.foldl (fun n d => n * 10 + d) m, e - ds.length) := by
  induction ds generalizing m e with
  | nil => simp [takeFraction]
  | cons d rest ih =>
    rw [takeFraction, if_pos ((countGrows _ rest).trans fits), ih _ fits, List.foldl_cons,
      List.length_cons, Nat.cast_succ, Int.sub_sub, Int.add_comm 1]

theorem naturalAppend : naturalOf (ds ++ fs) = fs.foldl (fun n d => n * 10 + d) (naturalOf ds) :=
  List.foldl_append

theorem scaledNumberFits {s : Bool} {power : Int} {x : Double}
    (fits : naturalOf (ds ++ fs) ≤ largestWord)
    (read : Double.ofScientific? s (naturalOf (ds ++ fs)) (power - fs.length) = some x) :
    scaledNumber s ds fs power = .double x := by
  rw [naturalAppend] at fits read
  have whole : takeWhole 0 0 ds = (naturalOf ds, 0) := takeWholeFits 0 ((countGrows _ fs).trans fits)
  rw [scaledNumber, whole]
  dsimp only
  rw [takeFractionFits 0 fits]
  dsimp only
  rw [Int.zero_sub, Int.add_comm, ← Int.sub_eq_add_neg, read]

theorem naturalZeros (ds : List Nat) (n : Nat) :
    naturalOf (ds ++ (Decimal.zeros n).map digitValue) = naturalOf ds * 10 ^ n := by
  rw [naturalAppend, Decimal.zeros, List.map_replicate]
  generalize naturalOf ds = m
  induction n generalizing m with
  | zero => simp
  | succ n ih =>
    rw [List.replicate_succ, List.foldl_cons, ih, Nat.pow_succ', ← Nat.mul_assoc]
    rfl

theorem zerosNatural (n : Nat) (ds : List Nat) :
    naturalOf ((Decimal.zeros n).map digitValue ++ ds) = naturalOf ds := by
  have none := naturalZeros [] n
  rw [List.nil_append] at none
  rw [naturalAppend, none]
  simp [naturalOf]

theorem Numeral.readExact {n : Numeral} (scaled : n.fraction ≠ [] ∨ n.power ≠ none) {m : Nat} {e : Int}
    (digits : naturalOf ((n.whole ++ n.fraction).map digitValue) = m)
    (exponent : n.power.getD 0 - n.fraction.length = e) (small : m < twoTo 53) (low : -22 ≤ e)
    (high : e ≤ 22) {s : Bool} {w : Fin Format.double.infinity}
    (reads : (Decimal.toBinary s ⟨m, e⟩ : Double) = .finite s w) :
    n.value s = .double (.finite s w) := by
  have fits : m ≤ largestWord := by
    have room : twoTo 53 ≤ largestWord := by decide
    omega
  rw [List.map_append] at digits
  rw [Numeral.value, if_neg fun plain => scaled.elim (· plain.1) (· plain.2)]
  refine scaledNumberFits (digits ▸ fits) ?_
  rw [digits, List.length_map, exponent]
  exact Double.ofScientificExact small low high reads

end ShaderNet.Json

namespace ShaderNet.Number.Decimal

def isShort (x : Decimal) : Bool :=
  x.digits * tenTo (x.exponent + 1).toNat < twoTo 53 && -22 ≤ x.exponent

/- Wherever the point is written, digits and power are those of the decimal; only a whole number has one
digit more. -/
theorem numeralExact (range : PointRange) {x : Decimal} (positive : 0 < x.digits)
    (short : x.isShort = true) {s : Bool} {w : Fin Format.double.infinity}
    (reads : (x.toBinary s : Double) = .finite s w) :
    (x.numeral range).value s = .double (.finite s w) := by
  simp only [isShort, Bool.and_eq_true, decide_eq_true_eq] at short
  obtain ⟨few, low⟩ := short
  have small : x.digits < twoTo 53 :=
    (Nat.le_mul_of_pos_right _ (tenToPositive _)).trans_lt few
  have high : x.exponent ≤ 22 := by
    by_contra far
    have more : tenTo 23 ≤ tenTo (x.exponent + 1).toNat :=
      Nat.pow_le_pow_right (by decide) (by omega)
    have less : twoTo 53 < tenTo 23 := by decide
    have all := Nat.le_mul_of_pos_left (tenTo (x.exponent + 1).toNat) positive
    omega
  have digits := Json.naturalDigits x.digits
  have some : 0 < (Nat.toDigits 10 x.digits).length := List.length_pos_of_ne_nil Nat.toDigits_ne_nil
  unfold numeral
  dsimp only
  split
  · refine Json.Numeral.readExact (.inr (by simp)) ?_ ?_ small low high reads
    · rw [List.take_append_drop, digits]
    · rw [Option.getD_some, List.length_drop]
      omega
  · split
    · rename_i whole
      refine Json.Numeral.readExact (.inl (by simp)) (e := -1) ?_ rfl few (by omega) (by omega) ?_
      · have zeros : zeros x.exponent.toNat ++ ['0'] = zeros (x.exponent + 1).toNat := by
          rw [Int.toNat_add whole (by decide)]
          exact (List.replicate_append_replicate : _ ++ List.replicate 1 '0' = _)
        rw [List.append_assoc, zeros, List.map_append, Json.naturalZeros, digits]
        rfl
      · rw [toBinarySame s (y := x), reads]
        obtain ⟨k, same⟩ := Int.eq_ofNat_of_zero_le whole
        have power : ((tenTo (x.exponent + 1).toNat : Nat) : ℚ) = 10 ^ x.exponent * 10 := by
          rw [same, show ((k : Int) + 1).toNat = k + 1 by omega]
          simp [tenTo, pow_succ]
        rw [value, value, Nat.cast_mul, power, zpow_neg_one, ← mul_assoc,
          mul_inv_cancel_right₀ (by decide)]
    · split
      · refine Json.Numeral.readExact (.inl ?_) ?_ ?_ small low high reads
        · rw [ne_eq, List.drop_eq_nil_iff]
          omega
        · rw [List.take_append_drop, digits]
        · rw [Option.getD_none, List.length_drop]
          omega
      · refine Json.Numeral.readExact (.inl ?_) ?_ ?_ small low high reads
        · exact List.append_ne_nil_of_right_ne_nil _ (List.ne_nil_of_length_pos some)
        · rw [List.map_append, List.map_append]
          exact (Json.zerosNatural 1 _).trans ((Json.zerosNatural _ _).trans digits)
        · rw [Option.getD_none, List.length_append, zeros, List.length_replicate]
          omega

end ShaderNet.Number.Decimal

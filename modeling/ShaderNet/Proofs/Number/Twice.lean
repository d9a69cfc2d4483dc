import Mathlib.Tactic.Linarith
import Mathlib.Tactic.Ring
import ShaderNet.Proofs.Number.Exact

/-! Two roundings. What is written for a single is rounded to a double first and to a single then. A
decimal with few places lies in the middle of two singles, or too far from there for a double to bridge;
so both roundings together give what one would. -/
namespace ShaderNet.Number

theorem nearestClose (n : Nat) {d : Nat} (positive : 0 < d) :
    |(nearest n d : ℚ) - n / d| ≤ 1 / 2 := by
  have bottom : (0 : ℚ) < d := Nat.cast_pos.mpr positive
  have parts : (n : ℚ) / d = (n / d : Nat) + (n % d : Nat) / d := by
    rw [eq_comm, add_div', div_left_inj' bottom.ne']
    · exact_mod_cast Nat.div_add_mod' n d
    · exact bottom.ne'
  have rest : ((n % d : Nat) : ℚ) / d ≤ 1 := by
    rw [div_le_one bottom]
    exact_mod_cast (Nat.mod_lt n positive).le
  have least : 0 ≤ ((n % d : Nat) : ℚ) / d := by positivity
  rw [parts, nearest, abs_le]
  split
  · rename_i up
    have half : (1 : ℚ) / 2 ≤ (n % d : Nat) / d := by
      rw [div_le_div_iff₀ two_pos bottom]
      have enough : 1 * d ≤ n % d * 2 := by omega
      exact_mod_cast enough
    rw [Nat.cast_succ]
    constructor <;> linarith
  · rename_i down
    have half : ((n % d : Nat) : ℚ) / d ≤ 1 / 2 := by
      rw [div_le_div_iff₀ bottom two_pos]
      have little : n % d * 2 ≤ 1 * d := by omega
      exact_mod_cast little
    constructor <;> linarith

theorem nearestUnique {n d m : Nat} (positive : 0 < d) (close : |(n : ℚ) / d - m| < 1 / 2) :
    nearest n d = m := by
  have near := nearestClose n positive
  have apart : |((nearest n d : ℚ)) - m| < 1 := by
    have both := abs_sub_le (nearest n d : ℚ) (n / d) m
    linarith
  rw [abs_lt] at apart
  have low : (m : ℚ) < nearest n d + 1 := by linarith
  have high : (nearest n d : ℚ) < m + 1 := by linarith
  have below : m < nearest n d + 1 := by exact_mod_cast low
  have above : nearest n d < m + 1 := by exact_mod_cast high
  omega

namespace Format

variable {f : Format} {n d : Nat} {l : Int}

theorem scaledRatio (n d : Nat) (q : Int) :
    ((n * twoTo (-q).toNat : Nat) : ℚ) / (d * twoTo q.toNat : Nat) = n / d / 2 ^ q := by
  have power := twoToRatio (-q)
  rw [neg_neg] at power
  rw [Nat.cast_mul, Nat.cast_mul, mul_div_mul_comm, power, zpow_neg, div_eq_mul_inv _ (2 ^ q)]

theorem powerSplit (f : Format) (l : Int) :
    (2 : ℚ) ^ l = twoTo f.fraction * 2 ^ (l - f.fraction) := by
  rw [show (twoTo f.fraction : ℚ) = 2 ^ (f.fraction : Int) by simp [twoTo], ← zpow_add₀ two_ne_zero,
    add_sub_cancel]

theorem digitsBounds {m : Nat} (digits : twoTo f.fraction ≤ m ∧ m ≤ 2 * twoTo f.fraction) :
    (2 : ℚ) ^ l ≤ m * 2 ^ (l - f.fraction) ∧ (m : ℚ) * 2 ^ (l - f.fraction) ≤ 2 ^ (l + 1) := by
  have unit : (0 : ℚ) < 2 ^ (l - f.fraction) := by positivity
  rw [zpow_add_one₀ two_ne_zero, powerSplit f l, mul_comm _ 2, ← mul_assoc]
  exact ⟨mul_le_mul_of_nonneg_right (by exact_mod_cast digits.1) unit.le,
    mul_le_mul_of_nonneg_right (by exact_mod_cast digits.2) unit.le⟩

theorem roundNormal (positive : 0 < d) (low : (2 : ℚ) ^ l ≤ n / d) (high : (n : ℚ) / d < 2 ^ (l + 1))
    (normal : f.lowest ≤ l - f.fraction) :
    f.round n d = (l - f.fraction - f.lowest).toNat * twoTo f.fraction +
      nearest (n * twoTo (-(l - f.fraction)).toNat) (d * twoTo (l - f.fraction).toNat) := by
  have some : 0 < n := by
    refine Nat.pos_of_ne_zero ?_
    rintro rfl
    rw [Nat.cast_zero, zero_div] at low
    exact absurd low (not_le.mpr (by positivity))
  rw [round, if_neg some.ne', floorLogUnique some positive low high]
  dsimp only
  rw [max_eq_right normal]

theorem roundNormalUnique {m : Nat} (positive : 0 < d) (low : (2 : ℚ) ^ l ≤ n / d)
    (high : (n : ℚ) / d < 2 ^ (l + 1)) (normal : f.lowest ≤ l - f.fraction)
    (close : |(n : ℚ) / d - m * 2 ^ (l - f.fraction)| < 2 ^ (l - f.fraction) / 2) :
    f.round n d = (l - f.fraction - f.lowest).toNat * twoTo f.fraction + m := by
  have unit : (0 : ℚ) < 2 ^ (l - f.fraction) := by positivity
  rw [roundNormal positive low high normal, nearestUnique (Nat.mul_pos positive (twoToPositive _))]
  rw [scaledRatio, div_sub' unit.ne', abs_div, abs_of_pos unit, div_lt_iff₀ unit, mul_comm _ (m : ℚ)]
  linarith

/- The nearest number has the digits of a word, or is the next power. -/
theorem roundNormalClose (positive : 0 < d) (low : (2 : ℚ) ^ l ≤ n / d)
    (high : (n : ℚ) / d < 2 ^ (l + 1)) (normal : f.lowest ≤ l - f.fraction) :
    ∃ m, f.round n d = (l - f.fraction - f.lowest).toNat * twoTo f.fraction + m ∧
      (twoTo f.fraction ≤ m ∧ m ≤ 2 * twoTo f.fraction) ∧
      |(m : ℚ) * 2 ^ (l - f.fraction) - n / d| ≤ 2 ^ (l - f.fraction) / 2 := by
  refine ⟨_, roundNormal positive low high normal, ?_⟩
  have near := nearestClose (n * twoTo (-(l - f.fraction)).toNat)
    (Nat.mul_pos positive (twoToPositive (l - f.fraction).toNat))
  generalize nearest (n * twoTo (-(l - f.fraction)).toNat)
    (d * twoTo (l - f.fraction).toNat) = m at near ⊢
  rw [scaledRatio] at near
  have unit : (0 : ℚ) < 2 ^ (l - f.fraction) := by positivity
  have least : (twoTo f.fraction : ℚ) ≤ n / d / 2 ^ (l - f.fraction) := by
    rw [le_div_iff₀ unit, ← powerSplit]
    exact low
  have most : (n : ℚ) / d / 2 ^ (l - f.fraction) < 2 * twoTo f.fraction := by
    rw [div_lt_iff₀ unit, mul_assoc, ← powerSplit, mul_comm, ← zpow_add_one₀ two_ne_zero]
    exact high
  obtain ⟨below, above⟩ := abs_le.mp near
  refine ⟨⟨?_, ?_⟩, ?_⟩
  · have less : (twoTo f.fraction : ℚ) < m + 1 := by linarith
    exact Nat.lt_succ_iff.mp (by exact_mod_cast less)
  · have less : (m : ℚ) < 2 * twoTo f.fraction + 1 := by linarith
    exact Nat.lt_succ_iff.mp (by exact_mod_cast less)
  · have whole : (n : ℚ) / d = n / d / 2 ^ (l - f.fraction) * 2 ^ (l - f.fraction) :=
      (div_mul_cancel₀ _ unit.ne').symm
    have scaled := mul_le_mul_of_nonneg_right near unit.le
    rw [whole, ← sub_mul, abs_mul, abs_of_pos unit]
    linarith

/- What is as near to a number as nothing else is rounded to it, also from just below the next power. -/
theorem roundNear {b : Nat} (positive : 0 < d) (low : (2 : ℚ) ^ l ≤ n / d)
    (high : (n : ℚ) / d ≤ 2 ^ (l + 1)) (normal : f.lowest ≤ l - f.fraction)
    (digits : twoTo f.fraction ≤ b ∧ b ≤ 2 * twoTo f.fraction)
    (close : |(n : ℚ) / d - b * 2 ^ (l - f.fraction)| < 2 ^ (l - f.fraction) / 2) :
    f.round n d = (l - f.fraction - f.lowest).toNat * twoTo f.fraction + b := by
  rcases high.lt_or_eq with less | next
  · exact roundNormalUnique positive low less normal close
  · have unit : (0 : ℚ) < 2 ^ (l - f.fraction) := by positivity
    have power : (2 : ℚ) ^ (l + 1) = (2 * twoTo f.fraction : Nat) * 2 ^ (l - f.fraction) := by
      rw [zpow_add_one₀ two_ne_zero, powerSplit f l, Nat.cast_mul, Nat.cast_ofNat]
      ring
    have last : b = 2 * twoTo f.fraction := by
      rw [next, power, ← sub_mul, abs_lt] at close
      have more : ((2 * twoTo f.fraction : Nat) : ℚ) < b + 1 := by nlinarith
      have count : 2 * twoTo f.fraction < b + 1 := by exact_mod_cast more
      omega
    refine roundExact positive ?_
    rw [magnitudeSteps normal (.inr digits.1) digits.2, next, power, last]

theorem closeAfter {r x b u t : ℚ} (close : |b * (2 * u) - r| ≤ u) (near : |x - r| ≤ t)
    (above : t < |r - (2 * b + 1) * u|) (below : t < |r - (2 * b - 1) * u|) :
    |x - b * (2 * u)| < u := by
  obtain ⟨low, high⟩ := abs_le.mp close
  obtain ⟨less, more⟩ := abs_le.mp near
  rw [abs_of_nonpos (by linarith)] at above
  rw [abs_of_nonneg (by linarith)] at below
  exact abs_lt.mpr ⟨by linarith, by linarith⟩

theorem doubleUnit (l : Int) : (2 : ℚ) ^ (l - double.fraction) = 2 * 2 ^ (l - 53) := by
  rw [mul_comm, ← zpow_add_one₀ two_ne_zero]
  congr 1
  change l - 52 = l - 53 + 1
  omega

theorem singleUnit (l : Int) : (2 : ℚ) ^ (l - single.fraction) = 2 * 2 ^ (l - 24) := by
  rw [mul_comm, ← zpow_add_one₀ two_ne_zero]
  congr 1
  change l - 23 = l - 24 + 1
  omega

/- The middle of two singles is a double. -/
theorem roundMiddle {j : Nat} (positive : 0 < d) (high : (n : ℚ) / d < 2 ^ (l + 1)) (least : -126 ≤ l)
    (most : l ≤ 800) (middle : (n : ℚ) / d = j * 2 ^ (l - 24)) :
    double.magnitude (double.round n d) = n / d := by
  have short : j < 2 ^ 25 := by
    have unit : (0 : ℚ) < 2 ^ (l - 24) := by positivity
    have less : (j : ℚ) * 2 ^ (l - 24) < 2 ^ 25 * 2 ^ (l - 24) := by
      rw [← middle, ← zpow_natCast, ← zpow_add₀ two_ne_zero]
      exact high.trans_eq (by congr 1; push_cast; ring)
    exact_mod_cast lt_of_mul_lt_mul_right less unit.le
  obtain ⟨w, held⟩ := doubleHas (k := l - 24) (short.trans (by decide)) (by omega) (by omega)
  rw [roundExact positive (middle.trans held.symm), held, middle]

/- Both are rounded to the same side unless the double is just between two singles, and a fraction that
is not there itself is too far away for that. -/
theorem roundTwice {m e : Nat} (left : 0 < d) (right : 0 < e) (low : (2 : ℚ) ^ l ≤ n / d)
    (high : (n : ℚ) / d < 2 ^ (l + 1)) (least : -126 ≤ l) (most : l ≤ 800)
    (apart : ∀ j : Nat, (n : ℚ) / d = j * 2 ^ (l - 24) ∨
      2 ^ (l - 53) < |(n : ℚ) / d - j * 2 ^ (l - 24)|)
    (first : (m : ℚ) / e = double.magnitude (double.round n d)) :
    single.round m e = single.round n d := by
  by_cases middle : ∃ j : Nat, (n : ℚ) / d = j * 2 ^ (l - 24)
  · obtain ⟨j, middle⟩ := middle
    rw [roundMiddle left high least most middle, div_eq_div_iff (by exact_mod_cast right.ne')
      (by exact_mod_cast left.ne')] at first
    exact roundSame right left (by exact_mod_cast first)
  · have far : ∀ j : Nat, (2 : ℚ) ^ (l - 53) < |(n : ℚ) / d - j * 2 ^ (l - 24)| :=
      fun j => (apart j).resolve_left fun here => middle ⟨j, here⟩
    have lowDouble : double.lowest ≤ l - double.fraction := by change -1074 ≤ l - 52; omega
    have lowSingle : single.lowest ≤ l - single.fraction := by change -149 ≤ l - 23; omega
    obtain ⟨a, wordA, digitsA, closeA⟩ := roundNormalClose left low high lowDouble
    obtain ⟨b, wordB, digitsB, closeB⟩ := roundNormalClose left low high lowSingle
    rw [wordA, magnitudeSteps lowDouble (.inr digitsA.1) digitsA.2] at first
    obtain ⟨reached, within⟩ := digitsBounds (l := l) digitsA
    rw [← first] at reached within closeA
    rw [doubleUnit, mul_div_cancel_left₀ _ two_ne_zero] at closeA
    rw [singleUnit, mul_div_cancel_left₀ _ two_ne_zero] at closeB
    have above := far (2 * b + 1)
    have below := far (2 * b - 1)
    have some := (twoToPositive single.fraction).trans_le digitsB.1
    rw [Nat.cast_succ, Nat.cast_mul] at above
    rw [Nat.cast_pred (by omega), Nat.cast_mul] at below
    rw [wordB]
    refine roundNear right reached within lowSingle digitsB ?_
    rw [singleUnit, mul_div_cancel_left₀ _ two_ne_zero]
    exact closeAfter closeB closeA above below

end Format

/-! Decimals with few places -/

theorem gridApart (z : Int) {g t : ℚ} (positive : 0 < g) (fine : t < g) :
    z * g = 0 ∨ t < |z * g| := by
  rcases eq_or_ne z 0 with rfl | some
  · simp
  · have one : (1 : ℚ) ≤ |(z : ℚ)| := by exact_mod_cast Int.one_le_abs some
    refine .inr (fine.trans_le ?_)
    rw [abs_mul, abs_of_pos positive]
    exact le_mul_of_one_le_left positive.le one

/- Decimals and middles of singles are both multiples of one fraction, which is not too small: that of the
last place, or of the last digit of a single divided by a power of five. -/
theorem decimalApart {c k : Nat} {l : Int} (few : k ≤ 12) (small : c < twoTo 53)
    (low : (2 : ℚ) ^ l ≤ c / 10 ^ k) (j : Nat) :
    (c : ℚ) / 10 ^ k = j * 2 ^ (l - 24) ∨ 2 ^ (l - 53) < |(c : ℚ) / 10 ^ k - j * 2 ^ (l - 24)| := by
  have ten : (10 : ℚ) ^ k = 5 ^ k * 2 ^ k := by
    rw [← mul_pow]
    norm_num
  have five : (0 : ℚ) < 5 ^ k := by positivity
  have two : (0 : ℚ) < 2 ^ k := by positivity
  rw [← sub_eq_zero]
  rcases lt_or_ge ((k : Int) + l) 24 with fine | coarse
  · obtain ⟨i, above⟩ : ∃ i : Nat, l - 24 = -(i + k : Nat) := ⟨(24 - l - k).toNat, by omega⟩
    have multiple : (c : ℚ) / 10 ^ k - j * 2 ^ (l - 24) =
        (c * 2 ^ i - j * 5 ^ k : Int) * (2 ^ (l - 24) / 5 ^ k) := by
      rw [above, zpow_neg, zpow_natCast, pow_add, ten]
      push_cast
      field_simp
    have less : (5 : ℚ) ^ k < 2 ^ 29 := by
      have count : 5 ^ k < 2 ^ 29 :=
        (Nat.pow_le_pow_right (by decide) few).trans_lt (by decide : 5 ^ 12 < 2 ^ 29)
      exact_mod_cast count
    have unit : (2 : ℚ) ^ (l - 24) = 2 ^ (l - 53) * 2 ^ 29 := by
      rw [← zpow_natCast, ← zpow_add₀ two_ne_zero]
      congr 1
      push_cast
      ring
    rw [multiple]
    refine gridApart _ (by positivity) ?_
    rw [lt_div_iff₀ five, unit]
    exact mul_lt_mul_of_pos_left less (by positivity)
  · obtain ⟨i, above⟩ : ∃ i : Nat, l - 24 = (i : Int) - k := ⟨(k + l - 24).toNat, by omega⟩
    have multiple : (c : ℚ) / 10 ^ k - j * 2 ^ (l - 24) =
        (c - j * (5 ^ k * 2 ^ i) : Int) * (1 / 10 ^ k) := by
      rw [above, zpow_sub₀ two_ne_zero, zpow_natCast, zpow_natCast, ten]
      push_cast
      field_simp
    have unit : (2 : ℚ) ^ l = 2 ^ (l - 53) * 2 ^ 53 := by
      rw [← zpow_natCast, ← zpow_add₀ two_ne_zero]
      congr 1
      push_cast
      ring
    have less : (c : ℚ) < 2 ^ 53 := by exact_mod_cast small
    rw [multiple]
    refine gridApart _ (by positivity) ?_
    rw [unit, le_div_iff₀ (by positivity)] at low
    rw [lt_div_iff₀ (by positivity)]
    linarith

theorem floorLogPlaces {c k : Nat} (some : 0 < c) (small : c < twoTo 53) (few : k ≤ 12) :
    -41 < floorLog c (tenTo k) ∧ floorLog c (tenTo k) < 53 := by
  have bottom : (0 : ℚ) < tenTo k := by exact_mod_cast tenToPositive k
  have one : (1 : ℚ) ≤ c := by exact_mod_cast some
  have most : (tenTo k : ℚ) ≤ 10 ^ 12 := by
    have count : tenTo k ≤ tenTo 12 := Nat.pow_le_pow_right (by decide) few
    exact_mod_cast count
  have least : (2 : ℚ) ^ (-40 : Int) ≤ c / tenTo k :=
    calc (2 : ℚ) ^ (-40 : Int) ≤ 1 / 10 ^ 12 := by norm_num
      _ ≤ c / tenTo k := by gcongr
  have whole : (c : ℚ) / tenTo k ≤ c := div_le_self (by positivity) (by exact_mod_cast tenToPositive k)
  have less : (c : ℚ) / tenTo k < 2 ^ (53 : Int) := whole.trans_lt (by exact_mod_cast small)
  obtain ⟨low, high⟩ := floorLogBounds some (tenToPositive k)
  have above := (zpow_lt_zpow_iff_right₀ (one_lt_two (α := ℚ))).mp (least.trans_lt high)
  have below := (zpow_lt_zpow_iff_right₀ (one_lt_two (α := ℚ))).mp (low.trans_lt less)
  exact ⟨by omega, below⟩

theorem Decimal.throughDouble {x : Decimal} (positive : 0 < x.digits) (short : x.isShort = true)
    (few : -12 ≤ x.exponent) {s : Bool} {w : Fin Format.single.infinity}
    (reads : (x.toBinary s : Single) = .finite s w) :
    ∃ v, (x.toBinary s : Double) = .finite s v ∧
      ((.finite s v : Double).convert : Single) = .finite s w := by
  have small : x.digits * tenTo x.exponent.toNat < twoTo 53 := by
    simp only [isShort, Bool.and_eq_true, decide_eq_true_eq] at short
    refine (Nat.mul_le_mul_left _ ?_).trans_lt short.1
    exact Nat.pow_le_pow_right (by decide) (by omega)
  have places : (-x.exponent).toNat ≤ 12 := by omega
  have some : 0 < x.digits * tenTo x.exponent.toNat := Nat.mul_pos positive (tenToPositive _)
  rw [toBinary, Binary.ofRatioRound] at reads ⊢
  generalize x.digits * tenTo x.exponent.toNat = c at small some reads ⊢
  generalize (-x.exponent).toNat = k at places reads ⊢
  obtain ⟨low, high⟩ := floorLogBounds some (tenToPositive k)
  obtain ⟨above, below⟩ := floorLogPlaces some small places
  have finite : Format.double.round c (tenTo k) < Format.double.infinity := by
    have normal : Format.double.lowest ≤ floorLog c (tenTo k) - Format.double.fraction := by
      change -1074 ≤ floorLog c (tenTo k) - 52
      omega
    obtain ⟨m, word, digits, _⟩ := Format.roundNormalClose (tenToPositive k) low high normal
    rw [word]
    change (_ - 52 - -1074 : Int).toNat * 4503599627370496 + m < 9218868437227405312
    change _ ∧ m ≤ 2 * 4503599627370496 at digits
    omega
  refine ⟨⟨_, finite⟩, Binary.ofWordFinite finite, ?_⟩
  rw [Binary.convert, Binary.ofScaled, Binary.ofRatioRound, ← reads]
  congr 1
  refine Format.roundTwice (tenToPositive k) (twoToPositive _) low high (by omega) (by omega) ?_ ?_
  · have power : (tenTo k : ℚ) = 10 ^ k := by simp [tenTo]
    rw [power] at low ⊢
    exact decimalApart places small low
  · rw [Format.magnitudeRatio]

end ShaderNet.Number

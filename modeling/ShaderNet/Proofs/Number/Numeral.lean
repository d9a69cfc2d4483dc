import ShaderNet.Proofs.Json.Leaf

/-! The numerals of numbers in documents, and what they are read as. -/
namespace ShaderNet.Number
open Json (Numeral)

namespace Binary

variable {f : Format}

theorem ofWordFinite {negative : Bool} {word : Nat} (finite : word < f.infinity) :
    (ofWord negative word : Binary f) = .finite negative ⟨word, finite⟩ := dif_pos finite

theorem ofWordInjective {s t : Bool} {v w : Nat} (first : v < f.infinity) (second : w < f.infinity)
    (same : (ofWord s v : Binary f) = ofWord t w) : s = t ∧ v = w := by
  rw [ofWordFinite first, ofWordFinite second] at same
  simpa using same

end Binary

namespace Decimal

variable {f : Format} {tie : Tie} {word : Nat}

theorem nearReads {n d : Nat} {top : Int} {count : Nat} {x : Decimal}
    (found : near? f tie word n d top count = some x) : readsAs f word x = true := by
  unfold near? at found
  dsimp only at found
  split at found
  · cases found
  · rename_i below _
    cases found
    exact below
  · rename_i _ above
    cases found
    exact above
  · rename_i below above
    split at found
    · cases found
      exact below
    · split at found
      · cases found
        exact above
      · split at found
        · cases found
          exact above
        · cases found
          split <;> assumption

theorem readsPositive {x : Decimal} (finite : word < f.infinity) (positive : 0 < word)
    (reads : readsAs f word x = true) : 0 < x.digits := by
  rw [readsAs, decide_eq_true_eq, toBinary, Binary.ofRatio] at reads
  refine Nat.pos_of_ne_zero fun none => ?_
  rw [if_pos (by simp [none])] at reads
  have zero := (Binary.ofWordInjective (Nat.lt_trans positive finite) finite reads).2
  omega

theorem tidyPositive {x : Decimal} (positive : 0 < x.digits) : 0 < x.tidy.digits := by
  unfold tidy
  split
  · dsimp only
    omega
  · exact positive

theorem significandPositive (positive : 0 < word) : 0 < f.significand word := by
  have power : 0 < twoTo f.fraction := Nat.pow_pos (by decide)
  unfold Format.significand
  split <;> omega

theorem exactPositive {n : Nat} (positive : 0 < n) (q : Int) : 0 < (exact n q).digits := by
  unfold exact
  split
  · exact Nat.mul_pos positive (Nat.pow_pos (by decide))
  · exact Nat.mul_pos positive (Nat.pow_pos (by decide))

theorem shortestPositive (finite : word < f.infinity) (positive : 0 < word) :
    0 < (shortest f tie word).digits := by
  unfold shortest
  dsimp only
  split
  · rename_i x found
    obtain ⟨count, _, near⟩ := List.exists_of_findSome?_eq_some found
    exact tidyPositive (readsPositive finite positive (nearReads near))
  · exact exactPositive (significandPositive positive) _

def numeral (range : PointRange) (x : Decimal) : Numeral :=
  let ds := Nat.toDigits 10 x.digits
  let point := (ds.length : Int) + x.exponent
  if point < range.low ∨ range.high < point then ⟨ds.take 1, ds.drop 1, some (point - 1)⟩
  else if 0 ≤ x.exponent then ⟨ds ++ zeros x.exponent.toNat, ['0'], none⟩
  else if 0 < point then ⟨ds.take point.toNat, ds.drop point.toNat, none⟩
  else ⟨['0'], zeros (-point).toNat ++ ds, none⟩

theorem zerosDigit {n : Nat} {c : Char} (member : c ∈ zeros n) : c.isDigit = true := by
  cases (List.mem_replicate.mp member).2
  rfl

theorem numeralWritten (range : PointRange) {x : Decimal} (positive : 0 < x.digits) :
    (x.numeral range).Written := by
  obtain ⟨c, cs, ds, lead⟩ := Json.digitsLead positive
  have all : ∀ d ∈ c :: cs, d.isDigit = true := fun d member => Json.toDigitsDigit (ds ▸ member)
  have zero : ∀ d ∈ ['0'], d.isDigit = true := fun _ => zerosDigit (n := 1)
  unfold numeral
  dsimp only
  rw [ds]
  split
  · refine ⟨fun d member => all d (List.mem_of_mem_take member), by simp, ?_,
      fun d member => all d (List.mem_of_mem_drop member)⟩
    rintro rest same
    exact absurd (List.cons.inj same).1 lead
  · split
    · refine ⟨List.forall_mem_append.mpr ⟨all, fun _ => zerosDigit⟩, by simp, ?_, zero⟩
      rintro rest same
      exact absurd (List.cons.inj same).1 lead
    · rename_i negative
      split
      · rename_i inside
        -- the point stands after the first digit, so that this digit leads
        obtain ⟨k, after⟩ : ∃ k, ((c :: cs).length + x.exponent : Int).toNat = k + 1 :=
          ⟨((c :: cs).length + x.exponent : Int).toNat - 1, by omega⟩
        rw [after]
        refine ⟨fun d member => all d (List.mem_of_mem_take member), by simp, ?_,
          fun d member => all d (List.mem_of_mem_drop member)⟩
        rintro rest same
        exact absurd (List.cons.inj same).1 lead
      · refine ⟨zero, by simp, by simp, ?_⟩
        exact List.forall_mem_append.mpr ⟨fun _ => zerosDigit, all⟩

theorem numeralText (range : PointRange) {x : Decimal} (positive : 0 < x.digits) :
    (x.numeral range).text =
      if (decimalLength x.digits : Int) + x.exponent < range.low ∨
        range.high < (decimalLength x.digits : Int) + x.exponent then x.scientific
      else if 0 ≤ x.exponent then x.positional ++ ['.', '0']
      else x.positional := by
  obtain ⟨c, cs, ds, _⟩ := Json.digitsLead positive
  unfold numeral decimalLength scientific positional
  dsimp only
  rw [ds]
  split
  · cases cs <;> simp [Numeral.text, Numeral.pointed, Numeral.scaled, Numeral.signed]
  · split
    · simp [Numeral.text, Numeral.pointed, Numeral.scaled]
    · rename_i negative
      split
      · have short : (c :: cs).drop ((c :: cs).length + x.exponent : Int).toNat ≠ [] := by
          simp only [ne_eq, List.drop_eq_nil_iff]
          omega
        rw [Numeral.text, Numeral.pointedSome short, Numeral.scaled, List.append_nil]
      · simp [Numeral.text, Numeral.pointedSome, Numeral.scaled]

end Decimal

namespace Binary

variable {f : Format}

def numeral (range : PointRange) (w : Fin f.infinity) : Numeral :=
  if w.val = 0 then ⟨['0'], ['0'], none⟩ else (Decimal.shortest f .even w).numeral range

theorem numeralWritten (range : PointRange) (w : Fin f.infinity) : (numeral range w).Written := by
  unfold numeral
  split
  · have zero : ∀ d ∈ ['0'], d.isDigit = true := fun _ => Decimal.zerosDigit (n := 1)
    exact ⟨zero, by simp, by simp, zero⟩
  · rename_i some
    exact Decimal.numeralWritten range (Decimal.shortestPositive w.isLt (Nat.pos_of_ne_zero some))

def sign (negative : Bool) : List Char := if negative then ['-'] else []

theorem documentNumeral (range : PointRange) (s : Bool) (w : Fin f.infinity) :
    documentText range (.finite s w) = some (String.ofList (sign s ++ (numeral range w).text)) := by
  unfold documentText numeral
  dsimp only
  split
  · rfl
  · rename_i some
    rw [Decimal.numeralText range (Decimal.shortestPositive w.isLt (Nat.pos_of_ne_zero some))]
    rfl

end Binary
end ShaderNet.Number

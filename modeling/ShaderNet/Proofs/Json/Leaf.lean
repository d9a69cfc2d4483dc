import ShaderNet.Json.Printer
import ShaderNet.Json.Reader

/-! Texts and numbers as they are written and read. -/
namespace ShaderNet.Json
open Number (Decimal)

/-! Texts -/

theorem hexDigitRead : ∀ n < 16, hexValue? (hexDigit n) = some n := by decide

theorem hexUnitRead {n : Nat} (small : n < 32) (rest : List Char) :
    hexUnit? ('0' :: '0' :: hexDigit (n / 16) :: hexDigit (n % 16) :: rest) = some (n, rest) := by
  have zero : hexValue? '0' = some 0 := rfl
  simp only [hexUnit?, zero, hexDigitRead (n / 16) (by omega), hexDigitRead (n % 16) (by omega)]
  simp
  omega

theorem codesEscape (c : Char) (n : Nat) (done : List Nat) (rest : List Char) :
    codes? (n + 1) done (escape c ++ rest) = codes? n (c.toNat :: done) rest := by
  unfold escape
  split
  · rfl
  · rfl
  · rfl
  · rfl
  · rfl
  · rfl
  · rfl
  · rename_i quote backslash _ _ _ _ _
    split
    · rename_i control
      simp [codes?, hexUnitRead control]
    · rename_i printed
      have quote : c ≠ '"' := quote
      have backslash : c ≠ '\\' := backslash
      simp [codes?, quote, backslash, printed]

theorem codesText (l : List Char) {n : Nat} (fuel : l.length < n) (done : List Nat)
    (rest : List Char) :
    codes? n done (l.flatMap escape ++ '"' :: rest) = some (done.reverse ++ l.map Char.toNat, rest) := by
  induction l generalizing n done with
  | nil =>
    obtain ⟨n, rfl⟩ : ∃ m, n = m + 1 := ⟨n - 1, by simp at fuel; omega⟩
    simp [codes?]
  | cons c l ih =>
    obtain ⟨n, rfl⟩ : ∃ m, n = m + 1 := ⟨n - 1, by simp at fuel; omega⟩
    rw [List.flatMap_cons, List.append_assoc, codesEscape, ih (by simpa using fuel)]
    simp

/- No character is half of a pair. -/
theorem joinCharacters (l : List Char) : joinPairs (l.map Char.toNat) = some l := by
  induction l with
  | nil => rfl
  | cons c l ih =>
    have whole : c.toNat < 0xD800 ∨ 0xDFFF < c.toNat := by
      rcases c.valid with low | high
      · exact .inl low
      · exact .inr high.1
    have high : isHigh c.toNat = false := by simp [isHigh]; omega
    have low : isLow c.toNat = false := by simp [isLow]; omega
    rw [List.map_cons, joinPairs.eq_def]
    simp [high, low, ih]

theorem escapeSome (c : Char) : 1 ≤ (escape c).length := by
  unfold escape
  split <;> first | decide | (split <;> simp)

theorem escapedLength (l : List Char) : l.length ≤ (l.flatMap escape).length := by
  induction l with
  | nil => exact Nat.le_refl _
  | cons c l ih =>
    have first := escapeSome c
    simp only [List.length_cons, List.flatMap_cons, List.length_append]
    omega

theorem textQuoted (s : String) (rest : List Char) :
    ∃ inner, (quoted s).toList = '"' :: inner ∧ text? (inner ++ rest) = some (some s, rest) := by
  refine ⟨s.toList.flatMap escape ++ ['"'], by simp [quoted], ?_⟩
  have length := escapedLength s.toList
  rw [List.append_assoc, text?, List.singleton_append, codesText _ (by rw [List.length_append]; omega)]
  simp [joinCharacters]

/-! Numerals -/

def digitValue (c : Char) : Nat := c.toNat - 48

def Ends (rest : List Char) : Prop :=
  ∀ c, rest.head? = some c → c.isDigit = false ∧ c ≠ '.' ∧ c ≠ 'e' ∧ c ≠ 'E'

theorem digitRead (c : Char) : digit? c = if c.isDigit then some (digitValue c) else none := by
  unfold digit? digitValue
  have same : ('0' ≤ c ∧ c ≤ '9') ↔ c.isDigit = true := by
    simp [Char.isDigit, Char.le_def]
  simp only [same]

theorem digitRange {c : Char} (digit : c.isDigit = true) : 48 ≤ c.toNat ∧ c.toNat ≤ 57 := by
  simp only [Char.isDigit, Bool.and_eq_true, decide_eq_true_eq] at digit
  exact ⟨UInt32.le_iff_toNat_le.mp digit.1, UInt32.le_iff_toNat_le.mp digit.2⟩

theorem digitZero {c : Char} (digit : c.isDigit = true) (zero : digitValue c = 0) : c = '0' := by
  have range := digitRange digit
  have code : c.toNat = 48 := by unfold digitValue at zero; omega
  exact Char.toNat_inj.mp code

theorem digitsRead {cs rest : List Char} (all : ∀ c ∈ cs, c.isDigit = true)
    (stop : ∀ c, rest.head? = some c → c.isDigit = false) :
    digits (cs ++ rest) = (cs.map digitValue, rest) := by
  induction cs with
  | nil =>
    cases rest with
    | nil => rfl
    | cons c rest => simp [digits, digitRead, stop c rfl]
  | cons c cs ih =>
    have later := ih fun d member => all d (List.mem_cons_of_mem _ member)
    simp [digits, digitRead, all c List.mem_cons_self, later]

structure Numeral where
  whole : List Char
  fraction : List Char
  power : Option Int

namespace Numeral

def pointed : List Char → List Char
  | [] => []
  | fs => '.' :: fs

theorem pointedSome {fs : List Char} (some : fs ≠ []) : pointed fs = '.' :: fs := by
  cases fs with
  | nil => exact absurd rfl some
  | cons c fs => rfl

def signed (k : Int) : List Char :=
  if k < 0 then '-' :: Nat.toDigits 10 k.natAbs else Nat.toDigits 10 k.natAbs

def scaled : Option Int → List Char
  | none => []
  | some k => 'e' :: signed k

def text (n : Numeral) : List Char := n.whole ++ pointed n.fraction ++ scaled n.power

structure Written (n : Numeral) : Prop where
  whole : ∀ c ∈ n.whole, c.isDigit = true
  some : n.whole ≠ []
  lead : ∀ rest, n.whole = '0' :: rest → rest = []
  fraction : ∀ c ∈ n.fraction, c.isDigit = true

def value (n : Numeral) (negative : Bool) : Json :=
  if n.fraction = [] ∧ n.power = none then wholeNumber negative (n.whole.map digitValue)
  else scaledNumber negative (n.whole.map digitValue) (n.fraction.map digitValue) (n.power.getD 0)

end Numeral

theorem naturalDigits (n : Nat) : naturalOf ((Nat.toDigits 10 n).map digitValue) = n := by
  have general : ∀ (cs : List Char) (k : Nat), (cs.map digitValue).foldl (fun n d => n * 10 + d) k =
      Nat.ofDigitChars 10 cs k := by
    intro cs
    induction cs with
    | nil => exact fun k => rfl
    | cons c cs ih =>
      intro k
      rw [List.map_cons, List.foldl_cons, ih, Nat.ofDigitChars_cons, Nat.mul_comm]
      rfl
  rw [naturalOf, general, Nat.ofDigitChars_ten_toDigits]

theorem toDigitsDigit {n : Nat} {c : Char} (member : c ∈ Nat.toDigits 10 n) : c.isDigit = true :=
  Nat.isDigit_of_mem_toDigits (by decide) (by decide) member

theorem fractionRead {fs rest : List Char} (all : ∀ c ∈ fs, c.isDigit = true)
    (stop : ∀ c, rest.head? = some c → c.isDigit = false ∧ c ≠ '.') :
    fraction? (Numeral.pointed fs ++ rest) =
      some (if fs = [] then none else some (fs.map digitValue), rest) := by
  cases fs with
  | nil =>
    unfold Numeral.pointed fraction?
    split
    · rename_i point
      rw [List.nil_append] at point
      exact absurd rfl (stop '.' (by rw [point]; rfl)).2
    · rfl
  | cons c fs =>
    have read := digitsRead all fun d first => (stop d first).1
    rw [List.cons_append] at read
    simp [Numeral.pointed, fraction?, read]

theorem exponentRead {power : Option Int} {rest : List Char} (ends : Ends rest) :
    exponent? (Numeral.scaled power ++ rest) = some (power, rest) := by
  cases power with
  | none =>
    cases rest with
    | nil => rfl
    | cons c rest =>
      obtain ⟨_, _, lower, upper⟩ := ends c rfl
      simp [Numeral.scaled, exponent?, lower, upper]
  | some k =>
    have stop : ∀ c, rest.head? = some c → c.isDigit = false := fun c first => (ends c first).1
    have read := digitsRead (fun _ => toDigitsDigit (n := k.natAbs)) stop
    have value := naturalDigits k.natAbs
    obtain ⟨c, cs, same⟩ := List.exists_cons_of_ne_nil (Nat.toDigits_ne_nil (b := 10) (n := k.natAbs))
    have first : c.isDigit = true := toDigitsDigit (n := k.natAbs) (by simp [same])
    have sign : exponentSign (Numeral.signed k ++ rest) = (decide (k < 0), c :: cs ++ rest) := by
      unfold Numeral.signed
      rw [same]
      split
      · rename_i negative
        simp [exponentSign, negative]
      · rename_i positive
        unfold exponentSign
        split <;> rename_i whole
        · cases whole
          cases first
        · cases whole
          cases first
        · simp [positive]
    rw [same] at read value
    rw [Numeral.scaled, List.cons_append, exponent?]
    simp only [true_or, if_true, sign, read]
    simp only [List.map_cons] at value ⊢
    rw [value]
    have back : (if decide (k < 0) = true then -(k.natAbs : Int) else k.natAbs) = k := by
      split <;> rename_i sign <;> rw [decide_eq_true_iff] at sign <;> omega
    rw [back]

theorem digitsLead {n : Nat} (positive : 0 < n) : ∃ c cs, Nat.toDigits 10 n = c :: cs ∧ c ≠ '0' := by
  induction n using Nat.strongRecOn with
  | ind n ih =>
    rcases Nat.lt_or_ge n 10 with small | big
    · refine ⟨Nat.digitChar n, [], Nat.toDigits_of_lt_base small, ?_⟩
      have each : ∀ m < 10, 0 < m → Nat.digitChar m ≠ '0' := by decide
      exact each n small positive
    · obtain ⟨c, cs, same, lead⟩ := ih (n / 10) (by omega) (by omega)
      exact ⟨c, cs ++ [Nat.digitChar (n % 10)],
        by rw [Nat.toDigits_of_base_le (by decide) big, same]; rfl, lead⟩

theorem Numeral.read {n : Numeral} (written : n.Written) (negative : Bool) {rest : List Char}
    (ends : Ends rest) : number? negative (n.text ++ rest) = some (n.value negative, rest) := by
  obtain ⟨whole, fraction, power⟩ := n
  obtain ⟨digitsWhole, nonempty, lead, digitsFraction⟩ := written
  dsimp only at *
  have scaledHead : ∀ c, (Numeral.scaled power ++ rest).head? = some c → c.isDigit = false ∧ c ≠ '.' := by
    intro c first
    cases power with
    | none => exact ⟨(ends c first).1, (ends c first).2.1⟩
    | some k =>
      cases first
      decide
  have pointedHead : ∀ c, (Numeral.pointed fraction ++ (Numeral.scaled power ++ rest)).head? = some c →
      c.isDigit = false := by
    intro c first
    cases fraction with
    | nil => exact (scaledHead c first).1
    | cons d ds =>
      cases first
      decide
  have readWhole := digitsRead digitsWhole pointedHead
  have readFraction := fractionRead digitsFraction scaledHead
  have readPower : exponent? (scaled power ++ rest) = some (power, rest) := exponentRead ends
  rw [text, List.append_assoc, List.append_assoc, number?, readWhole]
  split
  · rename_i none
    exact absurd (List.map_eq_nil_iff.mp (congrArg Prod.fst none)) nonempty
  · rename_i zero
    have zero := congrArg Prod.fst zero
    dsimp only at zero
    rcases whole with _ | ⟨c, cs⟩
    · cases zero
    · simp only [List.map_cons, List.cons.injEq] at zero
      cases digitZero (digitsWhole c List.mem_cons_self) zero.1
      rw [lead cs rfl] at zero
      cases zero.2
  · rename_i ds tail _ _ same
    cases same
    simp only [readFraction, readPower, Option.bind_eq_bind, Option.bind_some]
    cases fraction <;> cases power <;> rfl

end ShaderNet.Json

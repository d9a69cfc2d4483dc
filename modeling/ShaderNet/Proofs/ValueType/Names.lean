import Mathlib.Data.List.Infix
import ShaderNet.Proofs.Text
import ShaderNet.ValueType.Name

/-! Names of types. A size may be written with a plus sign and leading zeros before its digit; apart from
that a text is read as a type exactly if it is the name of one. -/
namespace ShaderNet.ValueType

/-! Sizes -/

def OneDigit (size : Nat) (text : String) : Prop := (size, text) ∈ [(2, "2"), (3, "3"), (4, "4")]

def Padded (size : Nat) (text : String) : Prop :=
  ∃ sign zeros digit, (sign = "" ∨ sign = "+") ∧ OneDigit size digit ∧
    text = sign ++ String.ofList (List.replicate zeros '0') ++ digit

variable {size : Nat} {text : String} {cs : List Char}

theorem oneDigitCases (one : OneDigit size text) :
    (size = 2 ∧ text = "2") ∨ (size = 3 ∧ text = "3") ∨ (size = 4 ∧ text = "4") := by
  simpa [OneDigit] using one

theorem paddedRange (padded : Padded size text) : 2 ≤ size ∧ size ≤ 4 := by
  obtain ⟨_, _, _, _, one, _⟩ := padded
  rcases oneDigitCases one with ⟨rfl, _⟩ | ⟨rfl, _⟩ | ⟨rfl, _⟩ <;> decide

theorem OneDigit.padded (one : OneDigit size text) : Padded size text :=
  ⟨"", 0, text, .inl rfl, one, by simp⟩

/- Every further digit makes a number ten times as large. -/
theorem decimalGrows {m n : Nat} (read : decimal? m cs = some n) : m ≤ n ∧ (cs ≠ [] → 10 * m ≤ n) := by
  induction cs generalizing m with
  | nil =>
    cases read
    exact ⟨Nat.le_refl n, fun some => absurd rfl some⟩
  | cons c cs ih =>
    rw [decimal?] at read
    split at read
    · have later := (ih read).1
      exact ⟨by omega, fun _ => by omega⟩
    · cases read

theorem decimalDigit {n : Nat} (read : decimal? 0 cs = some n) (low : 1 ≤ n) (high : n ≤ 9) :
    ∃ zeros digit, digit.toNat = 48 + n ∧ cs = List.replicate zeros '0' ++ [digit] := by
  induction cs with
  | nil =>
    cases read
    cases low
  | cons c cs ih =>
    rw [decimal?] at read
    split at read
    · rename_i digit
      have range : 48 ≤ c.toNat := digit.1
      rw [Nat.zero_mul, Nat.zero_add] at read
      by_cases zero : c.toNat = 48
      · rw [zero, Nat.sub_self] at read
        obtain ⟨zeros, last, value, rfl⟩ := ih read
        rw [Char.toNat_inj.mp (zero.trans (show 48 = '0'.toNat from rfl))]
        exact ⟨zeros + 1, last, value, rfl⟩
      · -- after a digit that is not zero, one more would be one too many
        obtain ⟨_, longer⟩ := decimalGrows read
        have ended : cs = [] := by
          by_contra more
          have := longer more
          omega
        subst ended
        cases read
        exact ⟨0, c, by omega, rfl⟩
    · cases read

theorem decimalPadded (zeros : Nat) (cs : List Char) :
    decimal? 0 (List.replicate zeros '0' ++ cs) = decimal? 0 cs := by
  induction zeros with
  | zero => rfl
  | succ zeros ih => exact ih

theorem digitsIff {digits : List Char} :
    (if digits.isEmpty then none else (decimal? 0 digits).filter fun n => 2 ≤ n && n ≤ 4) = some size ↔
      ∃ zeros digit, OneDigit size digit ∧ digits = List.replicate zeros '0' ++ digit.toList := by
  constructor
  · intro found
    split at found
    · cases found
    · obtain ⟨read, range⟩ := Option.filter_eq_some_iff.mp found
      simp only [Bool.and_eq_true, decide_eq_true_eq] at range
      obtain ⟨zeros, digit, value, rfl⟩ := decimalDigit read (by omega) (by omega)
      refine ⟨zeros, String.ofList [digit], ?_, by rw [String.toList_ofList]⟩
      have last : ∀ c : Char, c.toNat = 48 + size → digit = c := fun c same =>
        Char.toNat_inj.mp (value.trans same.symm)
      obtain rfl | rfl | rfl : size = 2 ∨ size = 3 ∨ size = 4 := by omega
      · rw [last '2' rfl]
        exact .head _
      · rw [last '3' rfl]
        exact .tail _ (.head _)
      · rw [last '4' rfl]
        exact .tail _ (.tail _ (.head _))
  · rintro ⟨zeros, digit, one, rfl⟩
    rw [decimalPadded]
    rcases oneDigitCases one with ⟨rfl, rfl⟩ | ⟨rfl, rfl⟩ | ⟨rfl, rfl⟩ <;> simp [decimal?]

theorem dimensionIff : dimension? cs = some size ↔ Padded size (String.ofList cs) := by
  have text : ∀ sign zeros digit, String.ofList cs =
      sign ++ String.ofList (List.replicate zeros '0') ++ digit ↔
        cs = sign.toList ++ (List.replicate zeros '0' ++ digit.toList) := by
    intro sign zeros digit
    rw [← String.toList_inj]
    simp [String.toList_append]
  simp only [Padded, text]
  unfold dimension?
  dsimp only
  split
  · rename_i rest
    rw [digitsIff]
    constructor
    · rintro ⟨zeros, digit, one, rfl⟩
      exact ⟨"+", zeros, digit, .inr rfl, one, rfl⟩
    · rintro ⟨sign, zeros, digit, rfl | rfl, one, same⟩
      · -- neither a zero nor a digit is a plus sign
        rcases oneDigitCases one with ⟨rfl, rfl⟩ | ⟨rfl, rfl⟩ | ⟨rfl, rfl⟩ <;>
          cases zeros <;> simp [List.replicate_succ] at same
      · exact ⟨zeros, digit, one, (List.cons.inj same).2⟩
  · rename_i unsigned
    rw [digitsIff]
    constructor
    · rintro ⟨zeros, digit, one, same⟩
      exact ⟨"", zeros, digit, .inl rfl, one, same⟩
    · rintro ⟨sign, zeros, digit, rfl | rfl, one, same⟩
      · exact ⟨zeros, digit, one, same⟩
      · exact absurd same (unsigned _)

/-! Names -/

inductive Spelled (writes : Nat → String → Prop) : String → ValueType → Prop
  | scalar (base : Scalar) : Spelled writes base.name (.scalar base)
  | vector (base : Scalar) {size digits} (written : writes size digits) :
      Spelled writes (base.vectorMark ++ "vec" ++ digits) (.vector base size)
  | square {base : Scalar} (real : base = .float ∨ base = .double) {size digits}
      (written : writes size digits) :
      Spelled writes (base.matrixMark ++ "mat" ++ digits) (.matrix base size size)
  | matrix {base : Scalar} (real : base = .float ∨ base = .double) {rows cols down across}
      (columns : writes cols across) (lines : writes rows down) :
      Spelled writes (base.matrixMark ++ "mat" ++ across ++ "x" ++ down) (.matrix base rows cols)
  | sampler : Spelled writes "sampler2D" .sampler

theorem splitAtXSome {front rest : List Char} :
    splitAtX? cs = some (front, rest) ↔ cs = front ++ 'x' :: rest ∧ 'x' ∉ front := by
  induction cs generalizing front with
  | nil => simp [splitAtX?]
  | cons c cs ih =>
    rw [splitAtX?]
    split
    · rename_i here
      subst here
      cases front with
      | nil => simp [eq_comm]
      | cons d front => simp +contextual [eq_comm]
    · rename_i other
      cases front with
      | nil => simp [other]
      | cons d front =>
        rw [Option.map_eq_some_iff]
        constructor
        · rintro ⟨⟨before, after⟩, found, same⟩
          cases same
          obtain ⟨rfl, free⟩ := ih.mp found
          exact ⟨rfl, by simp [free, Ne.symm other]⟩
        · rintro ⟨same, free⟩
          obtain ⟨rfl, rfl⟩ := List.cons.inj same
          exact ⟨(front, rest), ih.mpr ⟨rfl, fun inside => free (List.mem_cons_of_mem _ inside)⟩, rfl⟩

theorem splitAtXNone : splitAtX? cs = none ↔ 'x' ∉ cs := by
  induction cs with
  | nil => simp [splitAtX?]
  | cons c cs ih =>
    rw [splitAtX?]
    split
    · rename_i here
      simp [here]
    · rename_i other
      simp [ih, Ne.symm other]

theorem vectorSpelled {s : String} {bases : List Scalar} {t : ValueType}
    (found : vectorNamed? s.toList bases = some (some t)) : Spelled Padded s t := by
  induction bases with
  | nil => cases found
  | cons base rest ih =>
    rw [vectorNamed?] at found
    split at found
    · rename_i digits leads
      obtain ⟨size, read, rfl⟩ := Option.map_eq_some_iff.mp (Option.some.inj found)
      have same : s = base.vectorMark ++ "vec" ++ String.ofList digits := by
        rw [← String.toList_inj, Text.afterIff.mp leads]
        simp [String.toList_append]
      rw [same]
      exact .vector base (dimensionIff.mp read)
    · exact ih found

theorem matrixSpelled {s : String} {bases : List Scalar} {t : ValueType}
    (real : ∀ base ∈ bases, base = .float ∨ base = .double)
    (found : matrixNamed? s.toList bases = some (some t)) : Spelled Padded s t := by
  induction bases with
  | nil => cases found
  | cons base rest ih =>
    obtain ⟨here, others⟩ := List.forall_mem_cons.mp real
    rw [matrixNamed?] at found
    split at found
    · rename_i dimensions leads
      have text := Text.afterIff.mp leads
      have matrix := Option.some.inj found
      split at matrix
      · rename_i across down parted
        simp only [Option.bind_eq_bind, Option.bind_eq_some_iff] at matrix
        obtain ⟨rows, lines, cols, columns, same⟩ := matrix
        cases same
        have same : s = base.matrixMark ++ "mat" ++ String.ofList across ++ "x" ++ String.ofList down := by
          rw [← String.toList_inj, text, (splitAtXSome.mp parted).1]
          simp [String.toList_append]
        rw [same]
        exact .matrix here (dimensionIff.mp columns) (dimensionIff.mp lines)
      · obtain ⟨size, read, rfl⟩ := Option.map_eq_some_iff.mp matrix
        have same : s = base.matrixMark ++ "mat" ++ String.ofList dimensions := by
          rw [← String.toList_inj, text]
          simp [String.toList_append]
        rw [same]
        exact .square here (dimensionIff.mp read)
    · exact ih others found

theorem ofNameSpelled {s : String} {t : ValueType} (found : ofName? s = some t) : Spelled Padded s t := by
  unfold ofName? at found
  split at found
  · rename_i sampler
    cases found
    exact sampler ▸ .sampler
  · split at found
    · rename_i base named
      cases found
      have same := List.find?_some named
      exact (of_decide_eq_true same) ▸ .scalar base
    · split at found
      · rename_i vector
        exact vectorSpelled (found ▸ vector)
      · cases matrix : matrixNamed? s.toList [.float, .double] with
        | none =>
          rw [matrix] at found
          cases found
        | some answer =>
          rw [matrix] at found
          exact matrixSpelled (by decide) (matrix.trans (congrArg some found))

/- What begins like no name without a size is read as a vector, or else as a matrix. -/
theorem ofNameSized {s : String} {front : List Char} (leads : front <+: s.toList)
    (other : ∀ name ∈ "sampler2D" :: Scalar.all.map Scalar.name, ¬ front <+: name.toList) :
    (∀ answer, vectorNamed? s.toList Scalar.all = some answer → ofName? s = answer) ∧
      (vectorNamed? s.toList Scalar.all = none →
        ofName? s = (matrixNamed? s.toList [.float, .double]).getD none) := by
  obtain ⟨sampler, scalars⟩ := List.forall_mem_cons.mp other
  have unnamed : Scalar.all.find? (fun base => base.name = s) = none := by
    rw [List.find?_eq_none]
    intro base member named
    refine scalars base.name (List.mem_map_of_mem member) ?_
    rwa [of_decide_eq_true named]
  have different : s ≠ "sampler2D" := fun same => sampler (same ▸ leads)
  unfold ofName?
  rw [if_neg different, unnamed]
  exact ⟨fun answer vector => by rw [vector], fun none => by rw [none]⟩

theorem ofNameVector {s : String} (base : Scalar) (digits : List Char)
    (text : s.toList = base.vectorMark.toList ++ ['v', 'e', 'c'] ++ digits) :
    ofName? s = (dimension? digits).map (.vector base) := by
  have leads : base.vectorMark.toList ++ ['v', 'e', 'c'] <+: s.toList := ⟨digits, text.symm⟩
  refine (ofNameSized leads (by cases base <;> decide)).1 _ ?_
  rw [text]
  cases base <;> rfl

section Real

variable {base : Scalar} (real : base = .float ∨ base = .double)
include real

theorem ofNameMatrix {s : String} (dimensions : List Char)
    (text : s.toList = base.matrixMark.toList ++ ['m', 'a', 't'] ++ dimensions) :
    ofName? s = (matrixNamed? (base.matrixMark.toList ++ ['m', 'a', 't'] ++ dimensions)
      [.float, .double]).getD none := by
  have leads : base.matrixMark.toList ++ ['m', 'a', 't'] <+: s.toList := ⟨dimensions, text.symm⟩
  rw [← text]
  refine (ofNameSized leads (by rcases real with rfl | rfl <;> decide)).2 ?_
  rw [text]
  rcases real with rfl | rfl <;> rfl

theorem squareNamed {digits : List Char} (whole : splitAtX? digits = none)
    (read : dimension? digits = some size) :
    matrixNamed? (base.matrixMark.toList ++ ['m', 'a', 't'] ++ digits) [.float, .double] =
      some (some (.matrix base size size)) := by
  rcases real with rfl | rfl <;> simp [matrixNamed?, Scalar.matrixMark, Text.after?, whole, read]

theorem matrixNamed {dimensions across down : List Char} {rows cols : Nat}
    (parted : splitAtX? dimensions = some (across, down)) (columns : dimension? across = some cols)
    (lines : dimension? down = some rows) :
    matrixNamed? (base.matrixMark.toList ++ ['m', 'a', 't'] ++ dimensions) [.float, .double] =
      some (some (.matrix base rows cols)) := by
  rcases real with rfl | rfl <;>
    simp [matrixNamed?, Scalar.matrixMark, Text.after?, parted, columns, lines]

end Real

theorem paddedChars (padded : Padded size text) : ∀ c ∈ text.toList, c = '+' ∨ c.isDigit = true := by
  obtain ⟨sign, zeros, digit, signed, one, rfl⟩ := padded
  intro c member
  simp only [String.toList_append, String.toList_ofList, List.mem_append] at member
  rcases member with (member | member) | member
  · rcases signed with rfl | rfl
    · cases member
    · exact .inl (List.mem_singleton.mp member)
  · rw [(List.mem_replicate.mp member).2]
    exact .inr rfl
  · rcases oneDigitCases one with ⟨_, rfl⟩ | ⟨_, rfl⟩ | ⟨_, rfl⟩ <;>
      exact .inr (List.mem_singleton.mp member ▸ rfl)

theorem paddedWhole (padded : Padded size text) : 'x' ∉ text.toList := by
  intro inside
  rcases paddedChars padded 'x' inside with same | digit
  · cases same
  · cases digit

theorem paddedRead (padded : Padded size text) : dimension? text.toList = some size :=
  dimensionIff.mpr (by rwa [String.ofList_toList])

theorem spelledRead {s : String} {t : ValueType} (spelled : Spelled Padded s t) : ofName? s = some t := by
  cases spelled with
  | scalar base => cases base <;> decide
  | @vector base size digits written =>
    rw [ofNameVector base digits.toList (by simp [String.toList_append]), paddedRead written]
    rfl
  | @square base real size digits written =>
    have whole := splitAtXNone.mpr (paddedWhole written)
    rw [ofNameMatrix real digits.toList (by simp [String.toList_append]),
      squareNamed real whole (paddedRead written)]
    rfl
  | @matrix base real rows cols down across columns lines =>
    have parted : splitAtX? (across.toList ++ 'x' :: down.toList) = some (across.toList, down.toList) :=
      splitAtXSome.mpr ⟨rfl, paddedWhole columns⟩
    rw [ofNameMatrix real (across.toList ++ 'x' :: down.toList) (by simp [String.toList_append]),
      matrixNamed real parted (paddedRead columns) (paddedRead lines)]
    rfl
  | sampler => rfl

/-! Names without signs and zeros -/

def bare (s : String) : String := String.ofList (s.toList.filter fun c => c ≠ '+' && c ≠ '0')

theorem bareAppend (a b : String) : bare (a ++ b) = bare a ++ bare b := by
  simp [bare, String.toList_append, String.ofList_append]

theorem bareSame {s : String} : bare s = s ↔ '+' ∉ s.toList ∧ '0' ∉ s.toList := by
  rw [bare, ← String.toList_inj, String.toList_ofList, List.filter_eq_self]
  simp only [ne_eq, decide_not, Bool.and_eq_true, Bool.not_eq_eq_eq_not, Bool.not_true,
    decide_eq_false_iff_not]
  constructor
  · exact fun each => ⟨fun inside => (each _ inside).1 rfl, fun inside => (each _ inside).2 rfl⟩
  · rintro ⟨unsigned, unpadded⟩ c inside
    exact ⟨fun same => unsigned (same ▸ inside), fun same => unpadded (same ▸ inside)⟩

theorem oneDigitBare (one : OneDigit size text) : bare text = text := by
  rcases oneDigitCases one with ⟨_, rfl⟩ | ⟨_, rfl⟩ | ⟨_, rfl⟩ <;> rfl

theorem paddedBare (padded : Padded size text) : OneDigit size (bare text) := by
  obtain ⟨sign, zeros, digit, signed, one, rfl⟩ := padded
  have plain : bare sign = "" := by
    rcases signed with rfl | rfl <;> rfl
  have none : bare (String.ofList (List.replicate zeros '0')) = "" := by
    simp [bare]
  rw [bareAppend, bareAppend, plain, none, oneDigitBare one]
  simpa using one

theorem oneDigitText (one : OneDigit size text) : text = toString size := by
  rcases oneDigitCases one with ⟨rfl, rfl⟩ | ⟨rfl, rfl⟩ | ⟨rfl, rfl⟩ <;> rfl

theorem spelledMono {writes more : Nat → String → Prop}
    (each : ∀ size text, writes size text → more size text) {s : String} {t : ValueType}
    (spelled : Spelled writes s t) : Spelled more s t := by
  cases spelled with
  | scalar base => exact .scalar base
  | vector base written => exact .vector base (each _ _ written)
  | square real written => exact .square real (each _ _ written)
  | matrix real columns lines => exact .matrix real (each _ _ columns) (each _ _ lines)
  | sampler => exact .sampler

theorem bareVectorMark (base : Scalar) : bare base.vectorMark = base.vectorMark := by cases base <;> rfl

theorem bareMatrixMark (base : Scalar) : bare base.matrixMark = base.matrixMark := by cases base <;> rfl

theorem bareScalar (base : Scalar) : bare base.name = base.name := by cases base <;> rfl

theorem spelledBare {s : String} {t : ValueType} (spelled : Spelled Padded s t) :
    Spelled OneDigit (bare s) t := by
  cases spelled with
  | scalar base =>
    rw [bareScalar]
    exact .scalar base
  | vector base written =>
    rw [bareAppend, bareAppend, bareVectorMark]
    exact .vector base (paddedBare written)
  | square real written =>
    rw [bareAppend, bareAppend, bareMatrixMark]
    exact .square real (paddedBare written)
  | matrix real columns lines =>
    rw [bareAppend, bareAppend, bareAppend, bareAppend, bareMatrixMark]
    exact .matrix real (paddedBare columns) (paddedBare lines)
  | sampler => exact .sampler

theorem spelledPlain {s : String} {t : ValueType} (spelled : Spelled OneDigit s t) : bare s = s := by
  cases spelled with
  | scalar base => exact bareScalar base
  | vector base written =>
    rw [bareAppend, bareAppend, bareVectorMark, oneDigitBare written]
    rfl
  | square real written =>
    rw [bareAppend, bareAppend, bareMatrixMark, oneDigitBare written]
    rfl
  | matrix real columns lines =>
    rw [bareAppend, bareAppend, bareAppend, bareAppend, bareMatrixMark, oneDigitBare columns,
      oneDigitBare lines]
    rfl
  | sampler => rfl

theorem spelledName {s : String} {t : ValueType} (spelled : Spelled OneDigit s t) :
    t.name = s ∨ ∃ base n, t = .matrix base n n ∧ s = t.name ++ "x" ++ toString n := by
  cases spelled with
  | scalar base => exact .inl (by rw [name])
  | vector base written => exact .inl (by rw [name, oneDigitText written])
  | square real written => exact .inl (by rw [name, if_pos rfl, oneDigitText written, String.append_empty])
  | @matrix base real rows cols down across columns lines =>
    by_cases square : rows = cols
    · subst square
      refine .inr ⟨base, rows, rfl, ?_⟩
      rw [name, if_pos rfl, oneDigitText columns, oneDigitText lines, String.append_empty]
    · refine .inl ?_
      rw [name, if_neg square, oneDigitText columns, oneDigitText lines]
      simp only [String.append_assoc]
  | sampler => exact .inl (by rw [name])

theorem typeNamesRead (s : String) :
    (∀ t, ofName? s = some t ↔ Spelled Padded s t) ∧
    (∀ t, Spelled OneDigit s t ↔ ofName? s = some t ∧ '+' ∉ s.toList ∧ '0' ∉ s.toList) ∧
    ∀ t, ofName? s = some t → Spelled OneDigit (bare s) t ∧
      (t.name = bare s ∨ ∃ base n, t = .matrix base n n ∧ bare s = t.name ++ "x" ++ toString n) := by
  refine ⟨fun t => ⟨ofNameSpelled, spelledRead⟩, fun t => ⟨fun spelled => ?_, ?_⟩, fun t read => ?_⟩
  · exact ⟨spelledRead (spelledMono (fun _ _ => OneDigit.padded) spelled), bareSame.mp (spelledPlain spelled)⟩
  · rintro ⟨read, plain⟩
    exact bareSame.mpr plain ▸ spelledBare (ofNameSpelled read)
  · have plain := spelledBare (ofNameSpelled read)
    exact ⟨plain, spelledName plain⟩

theorem typeNamesReadPadded :
    ofName? "dmat+3x04" = some (.matrix .double 4 3) ∧
    Spelled OneDigit (bare "dmat+3x04") (.matrix .double 4 3) ∧
    (matrix .double 4 3).name = bare "dmat+3x04" := by
  have facts : ofName? "dmat+3x04" = some (.matrix .double 4 3) ∧
      (matrix .double 4 3).name = bare "dmat+3x04" := by
    decide +kernel
  obtain ⟨plain, _⟩ := (typeNamesRead "dmat+3x04").2.2 _ facts.1
  exact ⟨facts.1, plain, facts.2⟩

theorem paddedAccepted :
    (ofName? "vec+3" = some (.vec 3) ∧ ∀ t, ¬ Spelled OneDigit "vec+3" t) ∧
    (ofName? "mat02" = some (.matrix .float 2 2) ∧ ∀ t, ¬ Spelled OneDigit "mat02" t) := by
  have facts : (ofName? "vec+3" = some (.vec 3) ∧ bare "vec+3" ≠ "vec+3") ∧
      ofName? "mat02" = some (.matrix .float 2 2) ∧ bare "mat02" ≠ "mat02" := by
    decide +kernel
  exact ⟨⟨facts.1.1, fun _ spelled => facts.1.2 (spelledPlain spelled)⟩,
    facts.2.1, fun _ spelled => facts.2.2 (spelledPlain spelled)⟩

end ShaderNet.ValueType

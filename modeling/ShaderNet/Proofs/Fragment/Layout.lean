import ShaderNet.Proofs.Fragment.Words

/-! Sources written out from tokens, with blanks and comments between them. Whatever the layout, every
reader takes the tokens it is meant for and leaves the others, laid out as they were. -/
namespace ShaderNet.Fragment

inductive Spacer where
  | blank (c : Char) (gap : isGap c = true)
  | line (text : List Char) (stop : Char) (within : ∀ c ∈ text, isNewline c = false)
      (ends : isNewline stop = true)
  | block (text : List Char) (unclosed : ¬ ['*', '/'] <:+: text)

def Spacer.text : Spacer → List Char
  | blank c _ => [c]
  | line text stop _ _ => '/' :: '/' :: text ++ [stop]
  | block text _ => '/' :: '*' :: text ++ ['*', '/']

def spaced (gap : List Spacer) : List Char := gap.flatMap Spacer.text

structure Name where
  text : String
  named : (text.toList.head?.any startsWord && text.toList.all continuesWord) = true

structure Mark where
  char : Char
  seen : isGap char = false

inductive Token where
  | word (name : Name)
  | mark (m : Mark)
  | directive (text : List Char) (within : ∀ c ∈ text, isNewline c = false)

namespace Token

def text : Token → List Char
  | word name => name.text.toList
  | mark m => [m.char]
  | directive text _ => '#' :: text

/-- A token ends before what follows it: no letter goes on with a word, no comment begins with a
slash that is none, and a directive takes its whole line. -/
def Ends : Token → List Char → Prop
  | word _, rest => ∀ c, rest.head? = some c → continuesWord c = false
  | mark m, rest => m.char = '/' → rest.head? ≠ some '/' ∧ rest.head? ≠ some '*'
  | directive _ _, rest => ∃ c, rest.head? = some c ∧ isNewline c = true

end Token

/-- The source is the tokens with gaps before, between and after them. The last line may end in a
comment. -/
inductive Laid : List Token → List Char → Prop where
  | last (gap : List Spacer) : Laid [] (spaced gap)
  | remark (gap : List Spacer) (text : List Char) (within : ∀ c ∈ text, isNewline c = false) :
      Laid [] (spaced gap ++ '/' :: '/' :: text)
  | next (gap : List Spacer) (t : Token) {ts : List Token} {cs : List Char} (ends : t.Ends cs)
      (rest : Laid ts cs) : Laid (t :: ts) (spaced gap ++ (t.text ++ cs))

/-! Gaps -/

theorem closesComment (text rest : List Char) : closes (text ++ '*' :: '/' :: rest) = true := by
  induction text with
  | nil => rfl
  | cons c text ih =>
    rw [List.cons_append]
    unfold closes
    split <;> simp_all

theorem withinLine {text : List Char} (plain : (text.all fun c => !isNewline c) = true) :
    ∀ c ∈ text, isNewline c = false := by
  intro c member
  simpa using List.all_eq_true.mp plain c member

theorem dropLine {text : List Char} (within : ∀ c ∈ text, isNewline c = false) (rest : List Char) :
    dropGapFrom .line (text ++ rest) = dropGapFrom .line rest := by
  induction text with
  | nil => rfl
  | cons c text ih =>
    simp only [List.mem_cons, forall_eq_or_imp] at within
    simp [dropGapFrom, within.1, ih within.2]

theorem dropBlock {text : List Char} (unclosed : ¬ ['*', '/'] <:+: text) (rest : List Char) :
    dropGapFrom .block (text ++ '*' :: '/' :: rest) = dropGapFrom .outside rest := by
  induction text with
  | nil => simp [dropGapFrom]
  | cons c text ih =>
    simp only [List.infix_cons_iff, not_or] at unclosed
    rw [← ih unclosed.2, List.cons_append]
    conv => lhs; unfold dropGapFrom
    split
    · rename_i same
      cases text with
      | nil => simp at same
      | cons d text =>
        cases same
        exact absurd ⟨text, rfl⟩ unclosed.1
    · rfl

theorem dropSpacer (s : Spacer) (rest : List Char) : dropGap (s.text ++ rest) = dropGap rest := by
  cases s with
  | blank c gap => simp [Spacer.text, dropGap, dropGapFrom, gap]
  | line text stop within ends =>
    have slash : isGap '/' = false := by decide
    have inside : isNewline '/' = false := by decide
    simp only [Spacer.text, dropGap, List.cons_append, List.append_assoc, dropGapFrom, slash, inside]
    simp [dropLine within, dropGapFrom, ends]
  | block text unclosed =>
    have slash : isGap '/' = false := by decide
    simp only [Spacer.text, dropGap, List.cons_append, List.append_assoc, dropGapFrom, slash]
    simp [closesComment, dropBlock unclosed]

theorem dropSpaced (gap : List Spacer) (rest : List Char) :
    dropGap (spaced gap ++ rest) = dropGap rest := by
  induction gap with
  | nil => rfl
  | cons s gap ih =>
    simp only [spaced, List.flatMap_cons, List.append_assoc] at ih ⊢
    rw [dropSpacer, ih]

/-! Tokens -/

theorem nameChars (name : Name) : ∃ c cs, name.text.toList = c :: cs ∧ startsWord c = true ∧
    ∀ d ∈ cs, continuesWord d = true := by
  obtain ⟨text, named⟩ := name
  simp only [Bool.and_eq_true, Option.any_eq_true, List.head?_eq_some_iff, List.all_eq_true] at named
  obtain ⟨⟨c, ⟨cs, chars⟩, starts⟩, continues⟩ := named
  refine ⟨c, cs, chars, starts, fun d member => continues d ?_⟩
  rw [chars]
  exact List.mem_cons_of_mem c member

/- A reader that passes over gaps stays before anything that is none. -/
theorem dropSeen {c : Char} (seen : isGap c = false) {rest : List Char}
    (ends : c = '/' → rest.head? ≠ some '/' ∧ rest.head? ≠ some '*') :
    dropGap (c :: rest) = c :: rest := by
  unfold dropGap dropGapFrom
  by_cases slash : c = '/'
  · obtain ⟨line, block⟩ := ends slash
    subst slash
    simp only [seen, Bool.false_eq_true, if_false, if_true]
    split <;> simp_all
  · simp [seen, slash]

theorem continuesSeen {c : Char} (continues : continuesWord c = true) :
    isGap c = false ∧ c ≠ '/' ∧ c ≠ ')' := by
  refine ⟨Bool.not_eq_true _ ▸ fun gap => ?_, ?_, ?_⟩
  · simp only [isGap, isNewline, Bool.or_eq_true, decide_eq_true_eq] at gap
    rcases gap with (rfl | rfl) | rfl | rfl <;> simp [continuesWord] at continues
  · rintro rfl
    simp [continuesWord] at continues
  · rintro rfl
    simp [continuesWord] at continues

theorem nameContinues (name : Name) : ∀ c ∈ name.text.toList, continuesWord c = true := by
  obtain ⟨c, cs, chars, starts, continues⟩ := nameChars name
  rw [chars]
  exact List.forall_mem_cons.mpr ⟨startContinues starts, continues⟩

theorem dropWord {c : Char} (continues : continuesWord c = true) (rest : List Char) :
    dropGap (c :: rest) = c :: rest :=
  dropSeen (continuesSeen continues).1 fun slash => absurd slash (continuesSeen continues).2.1

theorem wordRest {cs rest : List Char} {w : Word} (read : word? cs = some (w, rest)) :
    rest = cs.dropWhile continuesWord := by
  cases cs with
  | nil => cases read
  | cons c cs =>
    rw [word?] at read
    split at read
    · rename_i starts
      cases read
      rw [List.dropWhile_cons_of_pos (startContinues starts)]
    · cases read

theorem wordNext {cs rest : List Char} {w : Word} (read : word? cs = some (w, rest)) :
    cs.head?.any continuesWord = true := by
  cases cs with
  | nil => cases read
  | cons c cs =>
    rw [word?] at read
    split at read
    · rename_i starts
      exact startContinues starts
    · cases read

/- A precision is read only where no word goes on after its gap, so never before the words of a header. -/
theorem dropPrecisionWords {cs rest rest' : List Char} {w v : Word} (first : word? cs = some (w, rest))
    (second : word? (dropGap rest) = some (v, rest')) : dropPrecision cs = cs := by
  unfold dropPrecision
  cases found : precisions.findSome? fun p => Text.after? p.toList cs with
  | none => rfl
  | some after =>
    obtain ⟨p, listed, matched⟩ := List.exists_of_findSome?_eq_some found
    have letters : ∀ p ∈ precisions, p.toList.all continuesWord = true := by decide
    have continues := List.all_eq_true.mp (letters p listed)
    have left : rest = after.dropWhile continuesWord := by
      rw [wordRest first, Text.afterIff.mp matched, List.dropWhile_append_of_pos continues]
    refine if_pos ?_
    cases after with
    | nil =>
      rw [left] at second
      cases second
    | cons d after =>
      cases goesOn : continuesWord d with
      | true =>
        rw [dropWord goesOn]
        exact goesOn
      | false =>
        rw [left, List.dropWhile_cons_of_neg (by simp [goesOn])] at second
        exact wordNext second

theorem dropToken {t : Token} {rest : List Char} (ends : t.Ends rest) :
    dropGap (t.text ++ rest) = t.text ++ rest := by
  cases t with
  | word name =>
    obtain ⟨c, cs, chars, starts, _⟩ := nameChars name
    simp only [Token.text, chars, List.cons_append]
    exact dropWord (startContinues starts) _
  | mark m => exact dropSeen m.seen ends
  | directive text within => exact dropSeen (by decide) fun slash => absurd slash (by decide)

theorem laidNext {t : Token} {ts : List Token} {cs : List Char} (laid : Laid (t :: ts) cs) :
    ∃ rest, dropGap cs = t.text ++ rest ∧ t.Ends rest ∧ Laid ts rest := by
  cases laid with
  | next gap t ends rest => exact ⟨_, (dropSpaced gap _).trans (dropToken ends), ends, rest⟩

theorem laidLast {cs : List Char} (laid : Laid [] cs) : dropGap cs = [] := by
  cases laid with
  | last gap =>
    rw [← List.append_nil (spaced gap), dropSpaced]
    rfl
  | remark gap text within =>
    have slash : isGap '/' = false := by decide
    have inside : isNewline '/' = false := by decide
    rw [dropSpaced]
    simp only [dropGap, dropGapFrom, slash, inside]
    simpa [dropGapFrom] using dropLine within []

theorem tokenSome (t : Token) : 0 < t.text.length := by
  cases t with
  | word name =>
    obtain ⟨c, cs, chars, _⟩ := nameChars name
    simp [Token.text, chars]
  | mark m => simp [Token.text]
  | directive text within => simp [Token.text]

theorem laidLength {ts : List Token} {cs : List Char} (laid : Laid ts cs) : ts.length ≤ cs.length := by
  induction laid with
  | last gap => simp
  | remark gap text within => simp
  | next gap t ends rest ih =>
    have some := tokenSome t
    simp only [List.length_cons, List.length_append]
    omega

theorem laidDropped {ts : List Token} {cs : List Char} (laid : Laid ts cs) : Laid ts (dropGap cs) := by
  cases ts with
  | nil =>
    rw [laidLast laid]
    exact .last []
  | cons t ts =>
    obtain ⟨rest, dropped, ends, laid⟩ := laidNext laid
    rw [dropped]
    exact .next [] t ends laid

/-! Readers -/

theorem wordLaid {name : Name} {ts : List Token} {cs : List Char} (laid : Laid (.word name :: ts) cs) :
    ∃ w rest, word? (dropGap cs) = some (w, rest) ∧ w.text = name.text ∧ Laid ts rest := by
  obtain ⟨rest, dropped, ends, laid⟩ := laidNext laid
  obtain ⟨c, word, chars, starts, continues⟩ := nameChars name
  have stop : rest.takeWhile continuesWord = [] ∧ rest.dropWhile continuesWord = rest := by
    cases rest with
    | nil => simp
    | cons d rest => simp [ends d rfl]
  have text : String.ofList (c :: word) = name.text := by rw [← chars, String.ofList_toList]
  refine ⟨⟨name.text, ⟨(word ++ rest).length + 1, rest.length⟩⟩, rest, ?_, rfl, laid⟩
  simp only [dropped, Token.text, chars, List.cons_append, word?, starts, if_true,
    List.takeWhile_append_of_pos continues, List.dropWhile_append_of_pos continues, stop,
    List.append_nil, text]

theorem markLaid {m : Mark} {ts : List Token} {cs : List Char} (laid : Laid (.mark m :: ts) cs) :
    ∃ rest, dropGap cs = m.char :: rest ∧ Laid ts rest := by
  obtain ⟨rest, dropped, _, laid⟩ := laidNext laid
  exact ⟨rest, dropped, laid⟩

end ShaderNet.Fragment

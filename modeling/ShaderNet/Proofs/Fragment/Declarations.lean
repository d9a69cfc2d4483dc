import Mathlib.Data.List.Forall2
import ShaderNet.Proofs.Fragment.Layout
import ShaderNet.Proofs.Text

/-! Fragments made of directives, definitions and announcements of functions. However they are laid
out, the reader finds these declarations in their order and nothing else. -/
namespace ShaderNet.Fragment

/-! Declarations -/

structure DeclaredParameter where
  qualifiers : List Name
  type : Name
  name : Name
  qualified : ∀ q ∈ qualifiers, isQualifier q.text = true
  unqualified : isQualifier type.text = false

inductive ParameterList where
  | void
  | list (parameters : List DeclaredParameter)

structure Header where
  result : Name
  name : Name
  parameters : ParameterList

def balanced : Nat → List Char → Bool
  | depth, [] => depth = 0
  | depth, c :: rest =>
    if c = '\x7b' then balanced (depth + 1) rest
    else if c = '\x7d' then depth ≠ 0 && balanced (depth - 1) rest
    else balanced depth rest

structure Body where
  marks : List Mark
  closed : balanced 0 (marks.map Mark.char) = true

inductive Directive where
  | plain (text : List Char) (within : ∀ c ∈ text, isNewline c = false)
      (unlisted : ¬ "editor:".toList <:+: text)
  | editor (front first : List Char) (others : List (List Char))
      (within : ∀ c ∈ front ++ first ++ others.flatten, isNewline c = false)
      (unlisted : ¬ "editor:".toList <:+: front) (single : ∀ piece ∈ first :: others, ',' ∉ piece)

inductive Declaration where
  | directive (d : Directive)
  | definition (header : Header) (body : Body)
  | announcement (header : Header)

/-! Tokens of declarations -/

namespace Token

def opening : Token := .mark ⟨'(', by decide⟩
def closing : Token := .mark ⟨')', by decide⟩
def comma : Token := .mark ⟨',', by decide⟩
def semicolon : Token := .mark ⟨';', by decide⟩
def openBrace : Token := .mark ⟨'\x7b', by decide⟩
def closeBrace : Token := .mark ⟨'\x7d', by decide⟩

end Token

def DeclaredParameter.tokens (p : DeclaredParameter) : List Token :=
  p.qualifiers.map .word ++ [.word p.type, .word p.name]

namespace ParameterList

def all : ParameterList → List DeclaredParameter
  | void => []
  | list ps => ps

def tokens : ParameterList → List Token
  | void => [.word ⟨"void", by decide⟩]
  | list [] => []
  | list (p :: ps) => p.tokens ++ ps.flatMap fun p => .comma :: p.tokens

end ParameterList

def Header.tokens (h : Header) (rest : List Token) : List Token :=
  .word h.result :: .word h.name :: .opening :: (h.parameters.tokens ++ .closing :: rest)

theorem Header.tokensAppend (h : Header) (ts us : List Token) :
    h.tokens ts ++ us = h.tokens (ts ++ us) := by
  simp [Header.tokens]

namespace Directive

def text : Directive → List Char
  | plain text _ _ => text
  | editor front first others _ _ _ =>
    front ++ ("editor:".toList ++ (first ++ others.flatMap fun piece => ',' :: piece))

def entries : Directive → List String
  | plain _ _ _ => []
  | editor _ first others _ _ _ =>
    (((first :: others).map Text.trim).filter fun entry => !entry.isEmpty).map String.ofList

theorem line (d : Directive) : ∀ c ∈ d.text, isNewline c = false := by
  intro c member
  cases d with
  | plain text within => exact within c member
  | editor front first others within =>
    simp only [text, List.mem_append, List.mem_flatMap, List.mem_cons] at member
    rcases member with member | member | member | ⟨piece, listed, rfl | member⟩
    · exact within c (by simp [member])
    · exact withinLine (by decide) c member
    · exact within c (by simp [member])
    · rfl
    · refine within c (List.mem_append_right _ (List.mem_flatten.mpr ⟨piece, listed, member⟩))

end Directive

namespace Declaration

def tokens : Declaration → List Token
  | directive d => [.directive d.text d.line]
  | definition h body => h.tokens (.openBrace :: body.marks.map .mark ++ [.closeBrace])
  | announcement h => h.tokens [.semicolon]

end Declaration

/-! Parameters -/

structure ParameterForm.Reads (p : ParameterForm) (d : DeclaredParameter) : Prop where
  qualifiers : p.qualifiers.map Word.text = d.qualifiers.map Name.text
  type : p.type.text = d.type.text
  name : p.name.text = d.name.text
  suffix : p.suffix = none

theorem qualifiersLaid {qs : List Name} {type : Name} {ts : List Token} {cs : List Char} {n : Nat}
    (qualified : ∀ q ∈ qs, isQualifier q.text = true) (plain : isQualifier type.text = false)
    (laid : Laid (qs.map .word ++ .word type :: ts) cs) (enough : qs.length < n) :
    ∃ ws rest, qualifiers n (dropGap cs) = (ws, dropGap rest) ∧
      ws.map Word.text = qs.map Name.text ∧ Laid (.word type :: ts) rest := by
  induction qs generalizing cs n with
  | nil =>
    obtain ⟨w, rest, read, text, _⟩ := wordLaid laid
    obtain ⟨n, rfl⟩ := Nat.exists_eq_succ_of_ne_zero (Nat.ne_of_gt enough)
    exact ⟨[], cs, by simp [qualifiers, read, text, plain], rfl, laid⟩
  | cons q qs ih =>
    obtain ⟨n, rfl⟩ := Nat.exists_eq_succ_of_ne_zero (Nat.ne_of_gt (Nat.zero_lt_of_lt enough))
    obtain ⟨w, rest, read, text, laid⟩ := wordLaid laid
    simp only [List.mem_cons, forall_eq_or_imp] at qualified
    obtain ⟨ws, rest, later, texts, laid⟩ := ih qualified.2 laid (Nat.lt_of_succ_lt_succ enough)
    refine ⟨w :: ws, rest, ?_, by simp [text, texts], laid⟩
    simp [qualifiers, read, text, qualified.1, later]

theorem wordHead {name : Name} {ts : List Token} {cs : List Char} (laid : Laid (.word name :: ts) cs) :
    ∃ c rest, dropGap cs = c :: rest ∧ startsWord c = true := by
  obtain ⟨rest, dropped, _⟩ := laidNext laid
  obtain ⟨c, word, chars, starts, _⟩ := nameChars name
  exact ⟨c, word ++ rest, by rw [dropped, Token.text, chars, List.cons_append], starts⟩

theorem expectWord {name : Name} {ts : List Token} {cs : List Char} (laid : Laid (.word name :: ts) cs)
    {c : Char} (other : startsWord c = false) : expect? c (dropGap cs) = none := by
  obtain ⟨d, rest, dropped, starts⟩ := wordHead laid
  rw [dropped, expect?, if_neg]
  rintro rfl
  cases starts.symm.trans other

theorem suffixSeen {c : Char} {cs rest : List Char} (dropped : dropGap cs = c :: rest) (other : c ≠ '[') :
    suffix cs = (none, cs) := by
  rw [suffix, dropped]
  split
  · rename_i same
    exact absurd (List.cons.inj same).1 other
  · rfl

def Stops (ts : List Token) : Prop :=
  ∀ rest, Laid ts rest → suffix rest = (none, rest) ∧ expect? ',' (dropGap rest) = none

theorem markStops {m : Mark} {ts : List Token} (bracket : m.char ≠ '[') (comma : m.char ≠ ',') :
    Stops (.mark m :: ts) := by
  intro rest laid
  obtain ⟨after, dropped, _⟩ := markLaid laid
  exact ⟨suffixSeen dropped bracket, by rw [dropped, expect?, if_neg comma]⟩

theorem wordStops {name : Name} {ts : List Token} : Stops (.word name :: ts) := by
  intro rest laid
  obtain ⟨c, after, dropped, starts⟩ := wordHead laid
  refine ⟨suffixSeen dropped ?_, expectWord laid (by decide)⟩
  rintro rfl
  simp [startsWord] at starts

theorem parameterLaid {d : DeclaredParameter} {ts : List Token} {cs : List Char}
    (laid : Laid (d.tokens ++ ts) cs) (bare : ∀ rest, Laid ts rest → suffix rest = (none, rest)) :
    ∃ p rest, parameter? (dropGap cs) = some (p, rest) ∧ p.Reads d ∧ Laid ts rest := by
  rw [DeclaredParameter.tokens, List.append_assoc] at laid
  have long : d.qualifiers.length < (dropGap cs).length + 1 := by
    have length := laidLength (laidDropped laid)
    simp only [List.length_append, List.length_map] at length
    omega
  obtain ⟨ws, rest, qualified, texts, laid⟩ := qualifiersLaid d.qualified d.unqualified laid long
  obtain ⟨type, rest, typed, typeText, laid⟩ := wordLaid laid
  obtain ⟨name, rest, named, nameText, laid⟩ := wordLaid laid
  refine ⟨⟨ws, type, name, none⟩, rest, ?_, ⟨texts, typeText, nameText, rfl⟩, laid⟩
  simp [parameter?, qualified, dropPrecisionWords typed named, typed, named, bare rest laid]

theorem suffixNone {ds : List DeclaredParameter} {ts : List Token} (stops : Stops ts) (cs : List Char)
    (laid : Laid ((ds.flatMap fun d => .comma :: d.tokens) ++ ts) cs) : suffix cs = (none, cs) := by
  cases ds with
  | nil => exact (stops cs laid).1
  | cons d ds =>
    obtain ⟨_, dropped, _⟩ := markLaid laid
    exact suffixSeen dropped (by decide)

theorem moreParametersLaid {ds : List DeclaredParameter} {ts : List Token} {cs : List Char} {n : Nat}
    (stops : Stops ts) (laid : Laid ((ds.flatMap fun d => .comma :: d.tokens) ++ ts) cs)
    (enough : (ds.flatMap fun d => Token.comma :: d.tokens).length ≤ n) :
    ∃ ps rest, moreParameters (n + 1) cs = (ps, rest) ∧ List.Forall₂ ParameterForm.Reads ps ds ∧
      Laid ts rest := by
  induction ds generalizing cs n with
  | nil => exact ⟨[], cs, by simp [moreParameters, (stops cs laid).2], .nil, laid⟩
  | cons d ds ih =>
    rw [List.flatMap_cons, List.cons_append, List.cons_append, List.append_assoc] at laid
    obtain ⟨rest, dropped, laid⟩ := markLaid laid
    obtain ⟨p, rest, read, reads, laid⟩ := parameterLaid laid (suffixNone stops)
    simp only [List.flatMap_cons, List.cons_append, List.length_cons, List.length_append] at enough
    obtain ⟨n, rfl⟩ : ∃ m, n = m + 1 := Nat.exists_eq_succ_of_ne_zero (by omega)
    obtain ⟨ps, rest, later, all, laid⟩ := ih laid (n := n) (by omega)
    refine ⟨p :: ps, rest, ?_, .cons reads all, laid⟩
    rw [moreParameters, dropped]
    simp [expect?, read, later]

/- The reader looks for `void` as a mere text, so that a name may begin with it; but a name that
does, or is `void`, has more of a word after it and no closing mark. -/
theorem voidNoList {name next : Name} {ts : List Token} {cs rest : List Char}
    (laid : Laid (.word name :: .word next :: ts) cs)
    (found : Text.after? "void".toList (dropGap cs) = some rest) :
    (dropGap rest).head? ≠ some ')' := by
  obtain ⟨after, dropped, ends, laid⟩ := laidNext laid
  obtain ⟨c, word, chars, starts, _⟩ := nameChars next
  obtain ⟨_, dropped', _⟩ := laidNext laid
  have nextSeen : (dropGap after).head? ≠ some ')' := by
    simp only [dropped', Token.text, chars, List.cons_append, List.head?_cons, ne_eq,
      Option.some.injEq]
    exact (continuesSeen (startContinues starts)).2.2
  rw [dropped] at found
  have split := Text.afterIff.mp found
  rcases List.append_eq_append_iff.mp split with ⟨part, whole, tail⟩ | ⟨part, whole, tail⟩
  · cases part with
    | nil => simpa [tail] using nextSeen
    | cons d part =>
      have inside : d ∈ "void".toList := by simp [whole]
      have every : ∀ d ∈ "void".toList, continuesWord d = true :=
        List.all_eq_true.mp (by decide)
      have stops := ends d (by simp [tail])
      simp [every d inside] at stops
  · cases part with
    | nil => simpa [tail] using nextSeen
    | cons d part =>
      have inside : d ∈ name.text.toList := by rw [Token.text] at whole; simp [whole]
      have continues := nameContinues name d inside
      rw [tail, List.cons_append, dropWord continues]
      simpa using (continuesSeen continues).2.2

theorem parameterWords (d : DeclaredParameter) (ts : List Token) :
    ∃ first second us, d.tokens ++ ts = .word first :: .word second :: us := by
  unfold DeclaredParameter.tokens
  cases d.qualifiers with
  | nil => exact ⟨_, _, _, rfl⟩
  | cons q qs =>
    cases qs with
    | nil => exact ⟨_, _, _, rfl⟩
    | cons q' qs => exact ⟨_, _, _, rfl⟩

theorem parametersSome {d : DeclaredParameter} {ts : List Token} {cs : List Char}
    (laid : Laid (d.tokens ++ ts) cs) : parameters (dropGap cs) = someParameters (dropGap cs) := by
  obtain ⟨first, second, us, tokens⟩ := parameterWords d ts
  rw [tokens] at laid
  rw [parameters]
  split
  · rename_i found
    rw [if_neg (voidNoList laid found)]
  · rfl

theorem parametersListed {ds : List DeclaredParameter} (some : ds ≠ []) {ts : List Token}
    {cs : List Char} (stops : Stops ts) (laid : Laid ((ParameterList.list ds).tokens ++ ts) cs) :
    ∃ ps rest, parameters (dropGap cs) = (ps, rest) ∧ List.Forall₂ ParameterForm.Reads ps ds ∧
      Laid ts rest := by
  cases ds with
  | nil => exact absurd rfl some
  | cons d ds =>
    rw [ParameterList.tokens, List.append_assoc] at laid
    rw [parametersSome laid, someParameters]
    obtain ⟨p, rest, read, reads, laid⟩ := parameterLaid laid (suffixNone stops)
    have length := laidLength laid
    rw [List.length_append] at length
    obtain ⟨ps, rest, later, all, laid⟩ := moreParametersLaid stops laid (Nat.le_of_add_right_le length)
    exact ⟨p :: ps, rest, by simp [read, later], .cons reads all, laid⟩

theorem parametersLaid {l : ParameterList} {ts : List Token} {cs : List Char}
    (laid : Laid (l.tokens ++ .closing :: ts) cs) :
    ∃ ps rest, parameters (dropGap cs) = (ps, rest) ∧ List.Forall₂ ParameterForm.Reads ps l.all ∧
      Laid (.closing :: ts) rest := by
  match l with
  | .void =>
    obtain ⟨rest, dropped, _, laid⟩ := laidNext laid
    obtain ⟨tail, closing, _⟩ := markLaid laid
    have found : Text.after? ['v', 'o', 'i', 'd'] (dropGap cs) = some rest := Text.afterIff.mpr dropped
    exact ⟨[], rest, by simp [parameters, found, closing], .nil, laid⟩
  | .list [] =>
    obtain ⟨rest, dropped, _⟩ := markLaid laid
    refine ⟨[], dropGap cs, ?_, .nil, laidDropped laid⟩
    simp [dropped, parameters, Text.after?, someParameters, parameter?, qualifiers, dropPrecision, precisions,
      word?, startsWord]
  | .list (d :: ds) =>
    exact parametersListed (List.cons_ne_nil d ds) (markStops (by decide) (by decide)) laid

/-! Functions -/

theorem bodyLaid {marks : List Mark} {depth n : Nat} {ts : List Token} {cs : List Char}
    (closed : balanced depth (marks.map Mark.char) = true)
    (laid : Laid (marks.map .mark ++ .closeBrace :: ts) cs) (enough : marks.length ≤ n) :
    ∃ rest, body? (n + 1) depth cs = some rest ∧ Laid ts rest := by
  induction marks generalizing depth cs n with
  | nil =>
    obtain ⟨rest, dropped, laid⟩ := markLaid laid
    have outermost : depth = 0 := by simpa [balanced] using closed
    exact ⟨rest, by simp [body?, dropped, outermost], laid⟩
  | cons m marks ih =>
    obtain ⟨rest, dropped, laid⟩ := markLaid laid
    obtain ⟨n, rfl⟩ : ∃ k, n = k + 1 :=
      Nat.exists_eq_succ_of_ne_zero (Nat.ne_of_gt (Nat.zero_lt_of_lt enough))
    have later {depth : Nat} (closed : balanced depth (marks.map Mark.char) = true) :=
      ih closed laid (Nat.le_of_succ_le_succ enough)
    rw [body?, dropped]
    simp only [List.map_cons, balanced] at closed
    by_cases opens : m.char = '\x7b'
    · rw [if_pos opens] at closed
      simpa [opens] using later closed
    · rw [if_neg opens] at closed
      by_cases ends : m.char = '\x7d'
      · rw [if_pos ends, Bool.and_eq_true] at closed
        obtain ⟨depth, rfl⟩ : ∃ k, depth = k + 1 :=
          Nat.exists_eq_succ_of_ne_zero (by simpa using closed.1)
        simpa [ends] using later closed.2
      · rw [if_neg ends] at closed
        split <;> simp_all

structure FunctionForm.Reads (f : FunctionForm) (h : Header) : Prop where
  result : f.result.text = h.result.text
  name : f.name.text = h.name.text
  parameters : List.Forall₂ ParameterForm.Reads f.parameters h.parameters.all

theorem definitionEnd {body : Body} {ts : List Token} {cs : List Char}
    (laid : Laid (.openBrace :: (body.marks.map .mark ++ .closeBrace :: ts)) cs) :
    ∃ rest, functionEnd? (dropGap cs) = some (true, rest) ∧ Laid ts rest := by
  obtain ⟨rest, dropped, laid⟩ := markLaid laid
  have length := laidLength laid
  rw [List.length_append, List.length_map] at length
  obtain ⟨rest, read, laid⟩ := bodyLaid body.closed laid (Nat.le_of_add_right_le length)
  exact ⟨rest, by simp [functionEnd?, dropped, read], laid⟩

theorem announcementEnd {ts : List Token} {cs : List Char} (laid : Laid (.semicolon :: ts) cs) :
    ∃ rest, functionEnd? (dropGap cs) = some (false, rest) ∧ Laid ts rest := by
  obtain ⟨rest, dropped, laid⟩ := markLaid laid
  exact ⟨rest, by simp [functionEnd?, dropped], laid⟩

theorem functionLaid {h : Header} {ts us : List Token} {cs : List Char} {isDefined : Bool}
    (laid : Laid (h.tokens ts) cs)
    (ending : ∀ rest, Laid ts rest →
      ∃ after, functionEnd? (dropGap rest) = some (isDefined, after) ∧ Laid us after) :
    ∃ f rest, function? (dropGap cs) = some (f, rest) ∧ f.isDefined = isDefined ∧ f.Reads h ∧
      Laid us rest := by
  obtain ⟨result, rest, resulting, resultText, laid⟩ := wordLaid laid
  obtain ⟨name, rest, named, nameText, laid⟩ := wordLaid laid
  obtain ⟨rest, opened, laid⟩ := markLaid laid
  obtain ⟨ps, rest, read, all, laid⟩ := parametersLaid laid
  obtain ⟨rest, closed, laid⟩ := markLaid laid
  obtain ⟨rest, ended, laid⟩ := ending rest laid
  refine ⟨⟨result, name, ps, isDefined, ⟨(dropGap cs).length, rest.length⟩⟩, rest, ?_, rfl,
    ⟨resultText, nameText, all⟩, laid⟩
  simp [function?, dropPrecisionWords resulting named, resulting, named, opened, expect?, read, closed,
    ended]

/-! Items -/

def Item.Reads : Item → Declaration → Prop
  | .directive text, .directive d => text = d.text
  | .function f, .definition h _ => f.isDefined = true ∧ f.Reads h
  | .function f, .announcement h => f.isDefined = false ∧ f.Reads h
  | _, _ => False

theorem directiveLaid {d : Directive} {ts : List Token} {cs : List Char}
    (laid : Laid (.directive d.text d.line :: ts) cs) :
    ∃ rest, item? (dropGap cs) = some (.directive d.text, rest) ∧ Laid ts rest := by
  obtain ⟨rest, dropped, ⟨c, next, newline⟩, laid⟩ := laidNext laid
  obtain ⟨rest, rfl⟩ := List.head?_eq_some_iff.mp next
  have within : ∀ c ∈ d.text, (!isNewline c) = true := fun c member => by simp [d.line c member]
  refine ⟨c :: rest, ?_, laid⟩
  simp [dropped, Token.text, item?, List.takeWhile_append_of_pos within,
    List.dropWhile_append_of_pos within, newline]

theorem wordNoDirective {name : Name} {ts : List Token} {cs : List Char}
    (laid : Laid (.word name :: ts) cs) (rest : List Char) : dropGap cs ≠ '#' :: rest := by
  intro directive
  obtain ⟨c, after, dropped, starts⟩ := wordHead laid
  cases (List.cons.inj (dropped.symm.trans directive)).1
  simp [startsWord] at starts

theorem functionItem {h : Header} {ts : List Token} {cs : List Char} {f : FunctionForm}
    {rest : List Char} (laid : Laid (h.tokens ts) cs) (read : function? (dropGap cs) = some (f, rest)) :
    item? (dropGap cs) = some (.function f, rest) := by
  rw [item?.eq_2 _ (wordNoDirective laid), read]

theorem itemLaid {d : Declaration} {ts : List Token} {cs : List Char} (laid : Laid (d.tokens ++ ts) cs) :
    ∃ item rest, item? (dropGap cs) = some (item, rest) ∧ item.Reads d ∧ Laid ts rest := by
  cases d with
  | directive d =>
    obtain ⟨rest, read, laid⟩ := directiveLaid laid
    exact ⟨_, rest, read, rfl, laid⟩
  | definition h body =>
    rw [Declaration.tokens, Header.tokensAppend, List.append_assoc] at laid
    obtain ⟨f, rest, read, defined, reads, after⟩ := functionLaid laid fun rest => definitionEnd
    exact ⟨_, rest, functionItem laid read, ⟨defined, reads⟩, after⟩
  | announcement h =>
    rw [Declaration.tokens, Header.tokensAppend] at laid
    obtain ⟨f, rest, read, announced, reads, after⟩ := functionLaid laid fun rest => announcementEnd
    exact ⟨_, rest, functionItem laid read, ⟨announced, reads⟩, after⟩

theorem tokensSome (d : Declaration) : 0 < d.tokens.length := by
  cases d <;> simp [Declaration.tokens, Header.tokens]

theorem tokensMany (ds : List Declaration) : ds.length ≤ (ds.flatMap Declaration.tokens).length := by
  induction ds with
  | nil => exact Nat.le_refl 0
  | cons d ds ih =>
    have taken := tokensSome d
    simp only [List.flatMap_cons, List.length_append, List.length_cons]
    omega

theorem itemsFromNext {cs rest : List Char} {item : Item} (read : item? (dropGap cs) = some (item, rest))
    (n : Nat) : itemsFrom? (n + 1) cs = (itemsFrom? n rest).map (item :: ·) := by
  rw [itemsFrom?]
  cases dropped : dropGap cs with
  | nil =>
    have nothing : item? [] = none := rfl
    simp [dropped, nothing] at read
  | cons c cs =>
    rw [dropped] at read
    cases later : itemsFrom? n rest <;> simp [read, later]

/- As many items are read as there are declarations, whatever follows them. -/
theorem itemsFromLaid {ds : List Declaration} {ts : List Token} {cs : List Char}
    (laid : Laid (ds.flatMap Declaration.tokens ++ ts) cs) :
    ∃ items rest, (∀ n, itemsFrom? (n + ds.length) cs = (itemsFrom? n rest).map (items ++ ·)) ∧
      List.Forall₂ Item.Reads items ds ∧ Laid ts rest := by
  induction ds generalizing cs with
  | nil => exact ⟨[], cs, fun n => by simp, .nil, laid⟩
  | cons d ds ih =>
    rw [List.flatMap_cons, List.append_assoc] at laid
    obtain ⟨item, after, read, reads, laid⟩ := itemLaid laid
    obtain ⟨items, rest, later, all, laid⟩ := ih laid
    refine ⟨item :: items, rest, fun n => ?_, .cons reads all, laid⟩
    rw [List.length_cons, ← Nat.add_assoc, itemsFromNext read, later, Option.map_map]
    rfl

theorem itemsFromAll {ds : List Declaration} {cs : List Char} {n : Nat}
    (laid : Laid (ds.flatMap Declaration.tokens) cs) (enough : ds.length ≤ n) :
    ∃ items, itemsFrom? (n + 1) cs = some items ∧ List.Forall₂ Item.Reads items ds := by
  rw [← List.append_nil (ds.flatMap Declaration.tokens)] at laid
  obtain ⟨items, rest, read, all, laid⟩ := itemsFromLaid laid
  obtain ⟨n, rfl⟩ := Nat.exists_eq_add_of_le' enough
  refine ⟨items, ?_, all⟩
  rw [Nat.add_right_comm, read, itemsFrom?, laidLast laid]
  simp

theorem itemsLaid {ds : List Declaration} {cs : List Char}
    (laid : Laid (ds.flatMap Declaration.tokens) cs) :
    ∃ items, items? cs = some items ∧ List.Forall₂ Item.Reads items ds :=
  itemsFromAll laid (Nat.le_trans (tokensMany ds) (laidLength laid))

end ShaderNet.Fragment

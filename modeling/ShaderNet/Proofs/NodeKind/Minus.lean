import ShaderNet.Proofs.NodeKind.Mentions
import ShaderNet.Proofs.NodeKind.Yields

/-! Minus signs side by side. Recipes put brackets, blanks and commas between all that they join, so that
two minus signs meet only where a negative number is negated. -/
namespace ShaderNet
open Fragment (Wordy continuesWord)
open Number (Figures Led)

namespace Fragment

def Apart (allowed : Option Char → Option Char → Prop) (text : List Char) : Prop :=
  ∀ before behind, text = before ++ '-' :: '-' :: behind → allowed before.getLast? behind.head?

structure Inner (allowed : Option Char → Option Char → Prop) : Prop where
  first : ∀ behind, ¬ allowed none behind
  last : ∀ before, ¬ allowed before none

variable {allowed : Option Char → Option Char → Prop} {a b : List Char}

theorem apartPlain (plain : '-' ∉ a) : Apart allowed a :=
  fun _ _ same => absurd (same ▸ by simp) plain

theorem apartFigures (figures : Figures a) : Apart allowed a := by
  obtain ⟨body, shape, all⟩ := figures
  have plain : '-' ∉ body := fun inside => Bool.false_ne_true (all '-' inside)
  rcases shape with rfl | rfl
  · exact apartPlain plain
  · intro before behind same
    cases before with
    | nil => exact absurd ((List.cons.inj same).2 ▸ List.mem_cons_self) plain
    | cons c before => exact absurd ((List.cons.inj same).2 ▸ by simp) plain

theorem lastAppend {x : List Char} (some : a ≠ []) : (x ++ a).getLast? = a.getLast? := by
  rw [List.getLast?_append, List.getLast?_eq_some_getLast some, Option.some_or]

section Inner

variable (inner : Inner allowed)
include inner

theorem apartAppend (left : Apart allowed a) (right : Apart allowed b)
    (free : a.getLast? ≠ some '-' ∨ b.head? ≠ some '-') : Apart allowed (a ++ b) := by
  intro before behind same
  rcases List.append_eq_append_iff.mp same with ⟨more, rfl, pair⟩ | ⟨more, cut, pair⟩
  · -- both signs stand on the right
    have here := right more behind pair
    rw [lastAppend fun none => inner.first _ (none ▸ here)]
    exact here
  · cases more with
    | nil => exact absurd (right [] behind pair.symm) (inner.first _)
    | cons c more =>
      cases more with
      | nil =>
        -- one sign on either side
        simp only [List.cons_append, List.nil_append, List.cons.injEq] at pair
        obtain ⟨rfl, rfl⟩ := pair
        rcases free with free | free
        · exact absurd (by rw [cut]; simp) free
        · exact absurd rfl free
      | cons d more =>
        simp only [List.cons_append, List.cons.injEq] at pair
        obtain ⟨rfl, rfl, rfl⟩ := pair
        have here := left before more cut
        cases more with
        | nil => exact absurd here (inner.last _)
        | cons c more => exact here

theorem apartAfter (plain : '-' ∉ a) (right : Apart allowed b) : Apart allowed (a ++ b) :=
  apartAppend inner (apartPlain plain) right
    (.inl fun last => plain (List.mem_of_getLast? last))

theorem apartBefore (left : Apart allowed a) (plain : '-' ∉ b) : Apart allowed (a ++ b) :=
  apartAppend inner left (apartPlain plain)
    (.inr fun first => plain (List.mem_of_head? first))

theorem apartBetween {between : List Char} (plain : '-' ∉ between) (some : between ≠ [])
    (left : Apart allowed a) (right : Apart allowed b) : Apart allowed (a ++ between ++ b) := by
  refine apartAppend inner (apartBefore inner left plain) right (.inl fun last => ?_)
  rw [lastAppend some] at last
  exact plain (List.mem_of_getLast? last)

theorem apartNegated (operand : Apart allowed a)
    (signed : ∀ rest, a = '-' :: rest → allowed (some '(') rest.head?) :
    Apart allowed ('(' :: '-' :: (a ++ [')'])) := by
  have closed : Apart allowed (a ++ [')']) := apartBefore inner operand (by decide)
  intro before behind same
  cases before with
  | nil => simp at same
  | cons c before =>
    cases before with
    | nil =>
      -- the sign of the operand follows that of the negation
      simp only [List.cons_append, List.nil_append, List.cons.injEq, true_and] at same
      obtain ⟨rfl, same⟩ := same
      cases a with
      | nil => simp at same
      | cons d rest =>
        simp only [List.cons_append, List.cons.injEq] at same
        obtain ⟨rfl, rfl⟩ := same
        have here := signed rest rfl
        cases rest with
        | nil => exact absurd here (inner.last _)
        | cons d rest => exact here
    | cons d before =>
      simp only [List.cons_append, List.cons.injEq] at same
      have here := closed before behind same.2.2
      have some : before ≠ [] := fun none => inner.first _ (none ▸ here)
      rw [show c :: d :: before = [c, d] ++ before from rfl, lastAppend some]
      exact here

end Inner

def Signed (text : List Char) : Prop :=
  ∀ rest, text = '-' :: rest → ∃ d, rest.head? = some d ∧ d.isDigit = true

theorem signedLed (led : Led a) : Signed a := fun _ same => Led.signed (same ▸ led)

theorem signedOther (other : a.head? ≠ some '-') : Signed a :=
  fun _ same => absurd (by rw [same]; rfl) other

theorem signedAfter (plain : '-' ∉ a) (some : a ≠ []) : Signed (a ++ b) := by
  intro rest same
  cases a with
  | nil => exact absurd rfl some
  | cons c a => exact absurd ((List.cons.inj same).1 ▸ List.mem_cons_self) plain

theorem signedSelected (signed : Signed a) (member : List Char) : Signed (a ++ '.' :: member) := by
  intro rest same
  cases a with
  | nil => cases (List.cons.inj same).1
  | cons c a =>
    simp only [List.cons_append, List.cons.injEq] at same
    obtain ⟨rfl, rfl⟩ := same
    obtain ⟨d, first, digit⟩ := signed a rfl
    exact ⟨d, by rw [List.head?_append, first]; rfl, digit⟩

theorem wordyPlain {text : String} (wordy : Wordy text) : '-' ∉ text.toList :=
  fun inside => Bool.false_ne_true (wordy '-' inside)

end Fragment

namespace NodeKind
open Fragment (Apart Inner Signed apartPlain apartFigures apartAfter apartBefore apartBetween apartNegated
  signedAfter signedLed signedOther signedSelected wordyPlain wordyAppend)

theorem wholeApart {allowed : Option Char → Option Char → Prop} (node : Node) {e : Expression}
    (apart : Apart allowed e.text.toList) : Apart allowed (wholeOf node e).text.toList := by
  unfold wholeOf Compiled.hoist
  split
  · exact apart
  · exact apartPlain (wordyPlain fun _ => Identifier.bindingWord)

section Apart

variable {allowed : Option Char → Option Char → Prop} (inner : Inner allowed)
include inner

theorem callApart {name : String} (wordy : Wordy name) {texts : List String}
    (each : ∀ text ∈ texts, Apart allowed text.toList) : Apart allowed (call name texts).toList := by
  have listed : Apart allowed (", ".intercalate texts).toList := by
    refine Text.intercalateInduct (motive := fun text => Apart allowed text.toList)
      (apartPlain (by decide)) (fun a b left right => ?_) each
    rw [String.toList_append, String.toList_append]
    exact apartBetween inner (by decide) (by decide) left right
  have plain : '-' ∉ (name ++ "(").toList := by simp [String.toList_append, wordyPlain wordy]
  rw [call, String.toList_append, String.toList_append]
  exact apartBefore inner (apartAfter inner plain listed) (by decide)

theorem zeroApart {t : ValueType} {text : String} (zero : t.zero = .ok text) :
    Apart allowed text.toList := by
  have scalar : ∀ base : Scalar, Apart allowed base.zero.toList :=
    fun base => apartPlain (by cases base <;> decide)
  refine ValueType.zeroInduct (motive := fun text => Apart allowed text.toList) scalar
    (fun t count base wordy => callApart inner wordy fun text member => ?_) t zero
  rw [(List.mem_replicate.mp member).2]
  exact scalar base

theorem enclosedApart {before behind : String} {text : String} (left : '-' ∉ before.toList)
    (right : '-' ∉ behind.toList) (inside : Apart allowed text.toList) :
    Apart allowed (before ++ text ++ behind).toList := by
  rw [String.toList_append, String.toList_append]
  exact apartBefore inner (apartAfter inner left inside) right

theorem operatorApart (op : Operator) {a b : String} (left : Apart allowed a.toList)
    (right : Apart allowed b.toList) :
    Apart allowed ("(" ++ a ++ " " ++ op.symbol ++ " " ++ b ++ ")").toList := by
  have symbol : Apart allowed op.symbol.toList := by
    cases op with
    | subtract => exact apartFigures ⟨[], .inr rfl, List.forall_mem_nil _⟩
    | _ => exact apartPlain (by decide)
  simp only [String.toList_append]
  refine apartBefore inner (apartBetween inner (by decide) (by decide) ?_ right) (by decide)
  exact apartBetween inner (by decide) (by decide) (apartAfter inner (by decide) left) symbol

theorem selectApart {whole member : String} (apart : Apart allowed whole.toList)
    (plain : '-' ∉ member.toList) : Apart allowed (whole ++ "." ++ member).toList := by
  rw [String.toList_append, String.toList_append, List.append_assoc]
  exact apartBefore inner apart (by simp [plain])

theorem displayedApart {e d : Expression} (ok : e.displayed = .ok d)
    (apart : Apart allowed e.text.toList) : Apart allowed d.text.toList := by
  unfold Expression.displayed at ok
  split at ok
  · split at ok <;> cases ok
    · exact enclosedApart inner (by decide) (by decide) apart
    · exact enclosedApart inner (by decide) (by decide) apart
    · exact enclosedApart inner (by decide) (by decide) apart
    · split
      · exact apart
      · exact enclosedApart inner (by decide) (by decide) apart
  · cases ok

theorem castApart {type : ValueType} {e d : Expression} (ok : castFrom type e = .ok d)
    (apart : Apart allowed e.text.toList) : Apart allowed d.text.toList := by
  unfold castFrom at ok
  split at ok
  · rename_i sized
    split at ok
    · cases ok
    · split at ok <;> cases ok
      · exact apart
      · exact callApart inner (sizedWordy sized) (List.forall_mem_singleton.mpr apart)
  · cases ok

section Given

variable {s : Surroundings} {node : Node} {given : Expression → Prop}
  (fed : ∀ e, given e → Apart allowed e.text.toList)
include fed

theorem argumentApart {text : String} (argument : Argument given text) : Apart allowed text.toList := by
  rcases argument with ⟨e, good, rfl⟩ | ⟨type, zero⟩
  · exact fed e good
  · exact zeroApart inner zero

/- Only a negation may bring two minus signs together. -/
theorem yieldsApart {kind : NodeKind} (named : kind.Named) (exports : s.exports.Named)
    (negated : kind = .negate → ∀ e, given e → ∀ rest, e.text.toList = '-' :: rest →
      allowed (some '(') rest.head?)
    {e : Expression} (yields : kind.Yields s node given e) : Apart allowed e.text.toList := by
  cases yields with
  | truth b => exact apartPlain (by cases b <;> decide)
  | number base finite => exact apartFigures (numberTextFigures base _)
  | color c =>
    refine callApart inner (by decide) fun text member => ?_
    obtain ⟨x, _, rfl⟩ := List.mem_map.mp member
    exact apartFigures (floatTextFigures _)
  | ambient value => exact apartPlain (by cases value <;> decide)
  | uniform found =>
    exact apartPlain (wordyPlain (wordyAppend (by decide) fun _ => Identifier.encodeWord _))
  | operator left right => exact operatorApart inner _ (fed _ left) (fed _ right)
  | @negate a operand =>
    have text : ("(-" ++ a.text ++ ")").toList = '(' :: '-' :: (a.text.toList ++ [')']) := by
      simp [String.toList_append]
    exact text ▸ apartNegated inner (fed a operand) (negated rfl a operand)
  | zero target zero => exact zeroApart inner zero
  | cast target good ok => exact castApart inner ok (fed _ good)
  | @compose size parts each =>
    refine callApart inner (ValueType.vectorWordy .float size) fun text member => ?_
    obtain ⟨p, listed, rfl⟩ := List.mem_map.mp member
    rcases each p listed with ⟨e, good, rfl⟩ | ⟨x, rfl⟩
    · exact fed e good
    · exact apartFigures (floatTextFigures x)
  | nothing => exact apartPlain (by decide)
  | scalar good scalar => exact wholeApart node (fed _ good)
  | component good scalar sized parted listed =>
    have plain : ∀ name ∈ components, '-' ∉ name.toList := by decide
    exact selectApart inner (wholeApart node (fed _ good))
      (plain _ (List.mem_of_mem_take listed))
  | unselected ok zero => exact zeroApart inner zero
  | unchanged good ok scalar => exact fed _ good
  | selected good ok scalar =>
    refine selectApart inner ?_ (selectedFree (by decide) ok)
    split
    · exact fed _ good
    · exact enclosedApart inner (by decide) (by decide) (fed _ good)
  | builtin reached ok each =>
    exact callApart inner named fun text member => argumentApart inner fed (each text member)
  | function found output each =>
    exact callApart inner (exports _ _ found) fun text member => argumentApart inner fed (each text member)
  | @texture sampler coordinates good placed =>
    refine callApart inner (by decide) (List.forall_mem_cons.mpr ⟨fed _ good, ?_⟩)
    refine List.forall_mem_singleton.mpr ?_
    rcases placed with rfl | ⟨e, good', rfl⟩
    · exact apartPlain (by decide)
    · exact fed e good'
  | black label => exact apartPlain (by decide)
  | displayed good ok => exact displayedApart inner ok (fed _ good)

end Given
end Apart

/-! Signs in front -/

theorem callSigned {name : String} (wordy : Wordy name) (texts : List String) :
    Signed (call name texts).toList := by
  rw [call, String.toList_append, String.toList_append, List.append_assoc]
  exact signedAfter (by simp [String.toList_append, wordyPlain wordy]) (by simp [String.toList_append])

theorem zeroSigned {t : ValueType} {text : String} (zero : t.zero = .ok text) : Signed text.toList := by
  refine ValueType.zeroInduct (motive := fun text => Signed text.toList) (fun base => ?_)
    (fun t count base wordy => callSigned wordy _) t zero
  exact signedOther (by cases base <;> decide)

theorem wholeSigned (node : Node) {e : Expression} (signed : Signed e.text.toList) :
    Signed (wholeOf node e).text.toList := by
  unfold wholeOf Compiled.hoist
  split
  · exact signed
  · refine signedOther fun first => wordyPlain (fun _ => ?_) (List.mem_of_head? first)
    exact Identifier.bindingWord

theorem displayedSigned {e d : Expression} (ok : e.displayed = .ok d) (signed : Signed e.text.toList) :
    Signed d.text.toList := by
  unfold Expression.displayed at ok
  split at ok
  · split at ok <;> cases ok
    · exact signedOther (by simp [Expression.compound, String.toList_append])
    · exact signedOther (by simp [Expression.compound, String.toList_append])
    · exact signedOther (by simp [Expression.compound, String.toList_append])
    · split
      · exact signed
      · exact signedOther (by simp [Expression.compound, String.toList_append])
  · cases ok

theorem castSigned {type : ValueType} {e d : Expression} (ok : castFrom type e = .ok d)
    (signed : Signed e.text.toList) : Signed d.text.toList := by
  unfold castFrom at ok
  split at ok
  · rename_i sized
    split at ok
    · cases ok
    · split at ok <;> cases ok
      · exact signed
      · exact callSigned (sizedWordy sized) _
  · cases ok

theorem selectSigned {whole : String} (signed : Signed whole.toList) (member : String) :
    Signed (whole ++ "." ++ member).toList := by
  rw [String.toList_append, String.toList_append, List.append_assoc]
  exact signedSelected signed member.toList

/- A text with a sign in front is a number, or a selection from one. -/
theorem yieldsSigned {s : Surroundings} {node : Node} {given : Expression → Prop} {kind : NodeKind}
    (named : kind.Named) (exports : s.exports.Named) (fed : ∀ e, given e → Signed e.text.toList)
    {e : Expression} (yields : kind.Yields s node given e) : Signed e.text.toList := by
  cases yields with
  | truth b => exact signedOther (by cases b <;> decide)
  | number base finite => exact signedLed (numberTextLed base finite)
  | color c => exact callSigned (by decide) _
  | ambient value => exact signedOther (by cases value <;> decide)
  | uniform found => exact signedOther (by simp [Expression.simple, Identifier.uniform, String.toList_append])
  | operator left right => exact signedOther (by simp [Expression.compound, String.toList_append])
  | negate operand => exact signedOther (by simp [Expression.compound, String.toList_append])
  | zero target zero => exact zeroSigned zero
  | cast target good ok => exact castSigned ok (fed _ good)
  | @compose size parts each => exact callSigned (ValueType.vectorWordy .float size) _
  | nothing => exact signedOther (by decide)
  | scalar good scalar => exact wholeSigned node (fed _ good)
  | component good scalar sized parted listed => exact selectSigned (wholeSigned node (fed _ good)) _
  | unselected ok zero => exact zeroSigned zero
  | unchanged good ok scalar => exact fed _ good
  | selected good ok scalar =>
    refine selectSigned ?_ _
    split
    · exact fed _ good
    · exact signedOther (by simp [String.toList_append])
  | builtin reached ok each => exact callSigned named _
  | function found output each => exact callSigned (exports _ _ found) _
  | texture good placed => exact callSigned (by decide) _
  | black label => exact signedOther (by decide)
  | displayed good ok => exact displayedSigned ok (fed _ good)

end NodeKind
end ShaderNet

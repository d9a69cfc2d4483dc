import ShaderNet.Proofs.NodeKind.Mentions
import ShaderNet.Proofs.NodeKind.Offered
import ShaderNet.Proofs.NodeKind.Yields
import ShaderNet.Proofs.Number.Exact

/-! Numbers that are not finite, in texts. Finite numbers have digits on both sides of their point, and all
else that recipes write has no digit behind a point; what is written for a number that is not finite has a
letter before its point. -/
namespace ShaderNet
open Fragment (Wordy)
open Number (Binary Decimal Double Format Single)

namespace Fragment

def Fractioned (text : List Char) : Prop :=
  ∀ before d behind, text = before ++ '.' :: d :: behind → d.isDigit = true →
    ∃ c, before.getLast? = some c ∧ c.isDigit = true

def HoldsNonFinite (text : List Char) : Prop :=
  ∃ name ∈ ["NaN.0", "inf.0"], name.toList <:+: text

variable {a b : List Char}

theorem Fractioned.finite (fractioned : Fractioned a) : ¬ HoldsNonFinite a := by
  rintro ⟨name, listed, before, behind, same⟩
  simp only [List.mem_cons, List.not_mem_nil, or_false] at listed
  rcases listed with rfl | rfl
  · obtain ⟨c, last, digit⟩ := fractioned (before ++ ['N', 'a', 'N']) '0' behind (by simp [← same]) rfl
    rw [List.getLast?_append] at last
    cases last
    cases digit
  · obtain ⟨c, last, digit⟩ := fractioned (before ++ ['i', 'n', 'f']) '0' behind (by simp [← same]) rfl
    rw [List.getLast?_append] at last
    cases last
    cases digit

theorem fractionedPlain (plain : '.' ∉ a) : Fractioned a :=
  fun _ _ _ same => absurd (same ▸ by simp) plain

theorem fractionedAppend (left : Fractioned a) (right : Fractioned b)
    (free : a.getLast? = some '.' → b.head?.any Char.isDigit = false) : Fractioned (a ++ b) := by
  intro before d behind same digit
  rcases List.append_eq_append_iff.mp same with ⟨more, rfl, point⟩ | ⟨more, cut, point⟩
  · -- the point stands on the right
    obtain ⟨c, last, whole⟩ := right more d behind point digit
    exact ⟨c, by rw [List.getLast?_append, last, Option.some_or], whole⟩
  · cases more with
    | nil =>
      obtain ⟨c, impossible, _⟩ := right [] d behind point.symm digit
      cases impossible
    | cons c more =>
      cases more with
      | nil =>
        -- the point is the last on the left
        simp only [List.cons_append, List.nil_append, List.cons.injEq] at point
        obtain ⟨rfl, rfl⟩ := point
        have other : d.isDigit = false := free (by rw [cut]; simp)
        cases other.symm.trans digit
      | cons c' more =>
        simp only [List.cons_append, List.cons.injEq] at point
        obtain ⟨rfl, rfl, rfl⟩ := point
        exact left before d more cut digit

theorem fractionedAfter (plain : '.' ∉ a) (right : Fractioned b) : Fractioned (a ++ b) :=
  fractionedAppend (fractionedPlain plain) right fun last => absurd (List.mem_of_getLast? last) plain

theorem fractionedBefore (left : Fractioned a) (plain : '.' ∉ b)
    (start : b.head?.any Char.isDigit = false) : Fractioned (a ++ b) :=
  fractionedAppend left (fractionedPlain plain) fun _ => start

theorem fractionedBetween {between : List Char} (plain : '.' ∉ between) (some : between ≠ [])
    (start : between.head?.any Char.isDigit = false) (left : Fractioned a) (right : Fractioned b) :
    Fractioned (a ++ between ++ b) := by
  refine fractionedAppend (fractionedBefore left plain start) right fun last => ?_
  rw [List.getLast?_append, List.getLast?_eq_some_getLast some, Option.some_or] at last
  exact absurd (Option.some.inj last ▸ List.getLast_mem some) plain

/- One point, behind a digit. -/
theorem fractionedPoint {c : Char} (last : a.getLast? = some c) (digit : c.isDigit = true)
    (whole : '.' ∉ a) (fraction : '.' ∉ b) : Fractioned (a ++ '.' :: b) := by
  intro before d behind same _
  rcases List.append_eq_append_iff.mp same with ⟨more, rfl, point⟩ | ⟨more, cut, point⟩
  · cases more with
    | nil => exact ⟨c, by rw [List.append_nil, last], digit⟩
    | cons e more => exact absurd ((List.cons.inj point).2 ▸ by simp) fraction
  · cases more with
    | nil => exact ⟨c, by rw [← List.append_nil before, ← cut, last], digit⟩
    | cons e more =>
      cases (List.cons.inj point).1
      exact absurd (by rw [cut]; simp) whole

theorem fractionedSelected (left : Fractioned a) (plain : '.' ∉ b)
    (start : b.head?.any Char.isDigit = false) : Fractioned (a ++ '.' :: b) := by
  refine fractionedAppend left (fun before d behind same digit => ?_) fun _ => rfl
  cases before with
  | nil =>
    cases same
    cases start.symm.trans digit
  | cons e before => exact absurd ((List.cons.inj same).2 ▸ by simp) plain

theorem wordyPointless {text : String} (wordy : Wordy text) : '.' ∉ text.toList :=
  fun inside => Bool.false_ne_true (wordy '.' inside)

end Fragment

/-! Numbers -/

namespace Number

theorem digitsPointless {ds : List Char} (digits : ∀ c ∈ ds, c.isDigit = true) : '.' ∉ ds :=
  fun inside => Bool.false_ne_true (digits '.' inside)

/- Digits, with a point among them or none. -/
theorem positionalPoint (x : Decimal) : ∃ ds, ds ≠ [] ∧ (∀ c ∈ ds, c.isDigit = true) ∧
    (x.positional = ds ∨ ∃ es, (∀ c ∈ es, c.isDigit = true) ∧ x.positional = ds ++ '.' :: es) := by
  have digits : ∀ c ∈ Nat.toDigits 10 x.digits, c.isDigit = true :=
    fun c member => Nat.isDigit_of_mem_toDigits (by decide) (by decide) member
  have zeros : ∀ n, ∀ c ∈ Decimal.zeros n, c.isDigit = true := by
    intro n c member
    rw [(List.mem_replicate.mp member).2]
    rfl
  unfold Decimal.positional
  dsimp only
  split
  · exact ⟨_, by simp, List.forall_mem_append.mpr ⟨digits, zeros _⟩, .inl rfl⟩
  · split
    · rename_i inside
      refine ⟨_, ?_, fun c member => digits c (List.mem_of_mem_take member), .inr ⟨_, ?_, rfl⟩⟩
      · rw [ne_eq, List.take_eq_nil_iff, not_or]
        exact ⟨by omega, Nat.toDigits_ne_nil⟩
      · exact fun c member => digits c (List.mem_of_mem_drop member)
    · refine ⟨['0'], by simp, List.forall_mem_singleton.mpr rfl, .inr ⟨_, ?_, rfl⟩⟩
      exact List.forall_mem_append.mpr ⟨zeros _, digits⟩

theorem finitePoint {f : Format} (s : Bool) (w : Fin f.infinity) :
    ∃ ds, ds ≠ [] ∧ (∀ c ∈ ds, c.isDigit = true) ∧
      ((Binary.plainText (.finite s w)).toList = (if s then ['-'] else []) ++ ds ∨
        ∃ es, (∀ c ∈ es, c.isDigit = true) ∧
          (Binary.plainText (.finite s w)).toList = (if s then ['-'] else []) ++ ds ++ '.' :: es) := by
  simp only [Binary.plainText, String.toList_ofList]
  by_cases zero : w.val = 0
  · rw [if_pos zero]
    exact ⟨['0'], by simp, List.forall_mem_singleton.mpr rfl, .inl rfl⟩
  · rw [if_neg zero]
    obtain ⟨ds, some, digits, same | ⟨es, fraction, same⟩⟩ := positionalPoint (Decimal.shortest f .up w)
    · exact ⟨ds, some, digits, .inl (by rw [same])⟩
    · exact ⟨ds, some, digits, .inr ⟨es, fraction, by rw [same, List.append_assoc]⟩⟩

theorem intPointless (n : Int) : '.' ∉ (toString n).toList := by
  cases n with
  | ofNat n => exact Fragment.wordyPointless (Fragment.wordyNat n)
  | negSucc n =>
    rw [show toString (Int.negSucc n) = "-" ++ toString (n + 1) from rfl, String.toList_append]
    exact List.not_mem_append (by decide) (Fragment.wordyPointless (Fragment.wordyNat (n + 1)))

end Number

namespace NodeKind
open Fragment (Fractioned HoldsNonFinite)
open Number (digitsPointless finitePoint intPointless)

/- The text of a finite number has its point behind a digit. -/
theorem floatTextFractioned {x : Double} (finite : x.isFinite = true) :
    Fractioned (floatText x).toList := by
  cases x with
  | finite s w =>
    obtain ⟨ds, some, digits, shape⟩ := finitePoint s w
    have pointless : '.' ∉ (if s then ['-'] else []) ++ ds :=
      List.not_mem_append (by cases s <;> decide) (digitsPointless digits)
    have last : ((if s then ['-'] else []) ++ ds).getLast? = Option.some (ds.getLast some) := by
      rw [List.getLast?_append, List.getLast?_eq_some_getLast some, Option.some_or]
    have point {es : List Char} (fraction : '.' ∉ es) :
        Fractioned ((if s then ['-'] else []) ++ ds ++ '.' :: es) :=
      Fragment.fractionedPoint last (digits _ (List.getLast_mem some)) pointless fraction
    unfold floatText
    dsimp only
    rcases shape with same | ⟨es, fraction, same⟩
    · rw [same, if_neg pointless, String.toList_append, same]
      exact point (by decide)
    · rw [same, if_pos (by simp), same]
      exact point (digitsPointless fraction)
  | _ => cases finite

theorem numberTextFractioned (base : Scalar) {x : Double} (finite : x.isFinite = true) :
    Fractioned (numberText base x).toList := by
  have float := floatTextFractioned finite
  cases base with
  | bool => exact float
  | int => exact Fragment.fractionedPlain (intPointless _)
  | uint =>
    rw [numberText, String.toList_append]
    exact Fragment.fractionedPlain (List.not_mem_append (intPointless _) (by decide))
  | float => exact float
  | double =>
    rw [numberText, String.toList_append]
    exact Fragment.fractionedBefore float (by decide) (by decide)

theorem floatTextNonFinite {x : Double} (other : x.isFinite = false) :
    HoldsNonFinite (floatText x).toList := by
  cases x with
  | nan => exact ⟨"NaN.0", List.mem_cons_self, [], [], rfl⟩
  | infinite s =>
    refine ⟨"inf.0", by simp, if s then ['-'] else [], [], ?_⟩
    cases s <;> rfl
  | finite s w => cases other

/-! How texts are put together -/

theorem enclosedFractioned {before behind text : String} (inside : Fractioned text.toList)
    (left : '.' ∉ before.toList) (right : '.' ∉ behind.toList)
    (start : behind.toList.head?.any Char.isDigit = false) :
    Fractioned (before ++ text ++ behind).toList := by
  rw [String.toList_append, String.toList_append]
  exact Fragment.fractionedBefore (Fragment.fractionedAfter left inside) right start

theorem callFractioned {name : String} (wordy : Wordy name) {texts : List String}
    (each : ∀ text ∈ texts, Fractioned text.toList) : Fractioned (call name texts).toList := by
  have listed : Fractioned (", ".intercalate texts).toList := by
    refine @Text.intercalateInduct (fun text => Fractioned text.toList) ", " texts
      (Fragment.fractionedPlain (by decide)) (fun a b left right => ?_) each
    rw [String.toList_append, String.toList_append]
    exact Fragment.fractionedBetween (by decide) (by decide) (by decide) left right
  have front : '.' ∉ (name ++ "(").toList := by
    rw [String.toList_append]
    exact List.not_mem_append (Fragment.wordyPointless wordy) (by decide)
  exact enclosedFractioned listed front (by decide) (by decide)

theorem operatorFractioned (op : Operator) {a b : String} (left : Fractioned a.toList)
    (right : Fractioned b.toList) :
    Fractioned ("(" ++ a ++ " " ++ op.symbol ++ " " ++ b ++ ")").toList := by
  have symbol : '.' ∉ (" " ++ op.symbol ++ " ").toList := by cases op <;> decide
  have joined : Fractioned (a ++ (" " ++ op.symbol ++ " ") ++ b).toList := by
    rw [String.toList_append, String.toList_append]
    exact Fragment.fractionedBetween symbol (by simp [String.toList_append])
      (by simp [String.toList_append]) left right
  have text : "(" ++ a ++ " " ++ op.symbol ++ " " ++ b ++ ")" =
      "(" ++ (a ++ (" " ++ op.symbol ++ " ") ++ b) ++ ")" := by simp [String.append_assoc]
  rw [text]
  exact enclosedFractioned joined (by decide) (by decide) (by decide)

theorem selectedFractioned {whole member : String} (inside : Fractioned whole.toList)
    (plain : '.' ∉ member.toList) (start : member.toList.head?.any Char.isDigit = false) :
    Fractioned (whole ++ "." ++ member).toList := by
  rw [String.toList_append, String.toList_append, List.append_assoc]
  exact Fragment.fractionedSelected inside plain start

theorem wordFractioned {text : String} (wordy : Wordy text) : Fractioned text.toList :=
  Fragment.fractionedPlain (Fragment.wordyPointless wordy)

theorem zeroPoint : Fractioned "0.0".toList :=
  @Fragment.fractionedPoint ['0'] ['0'] '0' rfl rfl (by decide) (by decide)

theorem onePoint : Fractioned "1.0".toList :=
  @Fragment.fractionedPoint ['1'] ['0'] '1' rfl rfl (by decide) (by decide)

theorem zeroFractioned {t : ValueType} {text : String} (zero : t.zero = .ok text) :
    Fractioned text.toList := by
  have scalar : ∀ base : Scalar, Fractioned base.zero.toList := by
    intro base
    cases base with
    | float => exact zeroPoint
    | double => exact @Fragment.fractionedPoint ['0'] ['0', 'l', 'f'] '0' rfl rfl (by decide) (by decide)
    | _ => exact wordFractioned (by decide)
  refine @ValueType.zeroInduct (fun text => Fractioned text.toList) scalar
    (fun t count base wordy => callFractioned wordy fun text member => ?_) text t zero
  rw [(List.mem_replicate.mp member).2]
  exact scalar base

theorem displayedFractioned {e d : Expression} (ok : e.displayed = .ok d)
    (inside : Fractioned e.text.toList) : Fractioned d.text.toList := by
  have vector (texts : List String) (each : ∀ text ∈ texts, Fractioned text.toList) :
      Fractioned (call "vec4" texts).toList := callFractioned (by decide) each
  unfold Expression.displayed at ok
  split at ok
  · split at ok <;> cases ok
    · have grey : Fractioned (call "vec3" [e.text]).toList :=
        callFractioned (by decide) (List.forall_mem_singleton.mpr inside)
      have text : "vec4(vec3(" ++ e.text ++ "), 1.0)" = call "vec4" [call "vec3" [e.text], "1.0"] :=
        String.toList_inj.mp (by simp [call, String.toList_append])
      exact text ▸ vector _ (List.forall_mem_cons.mpr ⟨grey, List.forall_mem_singleton.mpr onePoint⟩)
    · have text : "vec4(" ++ e.text ++ ", 0.0, 1.0)" = call "vec4" [e.text, "0.0", "1.0"] := by
        simp [call, String.append_assoc]
      exact text ▸ vector _ (by simpa using ⟨inside, zeroPoint, onePoint⟩)
    · have text : "vec4(" ++ e.text ++ ", 1.0)" = call "vec4" [e.text, "1.0"] := by
        simp [call, String.append_assoc]
      exact text ▸ vector _ (by simpa using ⟨inside, onePoint⟩)
    · split
      · exact inside
      · exact vector [e.text] (List.forall_mem_singleton.mpr inside)
  · cases ok

theorem castFractioned {type : ValueType} {e d : Expression} (ok : castFrom type e = .ok d)
    (inside : Fractioned e.text.toList) : Fractioned d.text.toList := by
  unfold castFrom at ok
  split at ok
  · rename_i sized
    split at ok
    · cases ok
    · split at ok <;> cases ok
      · exact inside
      · exact callFractioned (sizedWordy sized) (List.forall_mem_singleton.mpr inside)
  · cases ok

def writesAny : NodeKind → Bool
  | color | compose _ => true
  | _ => false

section Yields

variable {s : Surroundings} {node : Node} {given : Expression → Prop}
  (operands : ∀ e, given e → Fractioned e.text.toList)
include operands

theorem wholeFractioned {e : Expression} (fed : given e) : Fractioned (wholeOf node e).text.toList := by
  unfold wholeOf Compiled.hoist
  split
  · exact operands e fed
  · exact wordFractioned fun _ => Identifier.bindingWord

theorem argumentFractioned {text : String} (argument : Argument given text) : Fractioned text.toList := by
  rcases argument with ⟨e, fed, rfl⟩ | ⟨type, zero⟩
  · exact operands e fed
  · exact zeroFractioned zero

theorem yieldsFractioned {kind : NodeKind} (named : kind.Named) (exports : s.exports.Named)
    (careful : kind.writesAny = false) {e : Expression} (yields : kind.Yields s node given e) :
    Fractioned e.text.toList := by
  have arguments {name : String} (wordy : Wordy name) {texts : List String}
      (each : ∀ text ∈ texts, Argument given text) : Fractioned (call name texts).toList :=
    callFractioned wordy fun text member => argumentFractioned operands (each text member)
  cases yields with
  | truth b => exact wordFractioned (by cases b <;> decide)
  | number base finite => exact numberTextFractioned base finite
  | color c => cases careful
  | ambient value => exact wordFractioned (by cases value <;> decide)
  | uniform found =>
    exact wordFractioned (Fragment.wordyAppend (by decide) fun _ => Identifier.encodeWord _)
  | operator left right => exact operatorFractioned _ (operands _ left) (operands _ right)
  | negate fed => exact enclosedFractioned (operands _ fed) (by decide) (by decide) (by decide)
  | zero target zero => exact zeroFractioned zero
  | cast target fed ok => exact castFractioned ok (operands _ fed)
  | compose each => cases careful
  | nothing => exact zeroPoint
  | scalar fed scalar => exact wholeFractioned operands fed
  | component fed scalar sized parted listed =>
    have letters : components.all (fun name =>
        decide ('.' ∉ name.toList) && !name.toList.head?.any Char.isDigit) = true := by decide
    obtain ⟨plain, start⟩ := Bool.and_eq_true_iff.mp
      (List.all_eq_true.mp letters _ (List.mem_of_mem_take listed))
    exact selectedFractioned (wholeFractioned operands fed) (of_decide_eq_true plain)
      (by simpa using start)
  | unselected ok zero => exact zeroFractioned zero
  | unchanged fed ok scalar => exact operands _ fed
  | @selected member type e fed ok scalar =>
    have whole : Fractioned (if e.trivial then e.text else "(" ++ e.text ++ ")").toList := by
      split
      · exact operands e fed
      · exact enclosedFractioned (operands e fed) (by decide) (by decide) (by decide)
    refine selectedFractioned whole (selectedFree (by decide) ok) ?_
    obtain ⟨l, placed⟩ := selectedPositions ok
    obtain ⟨_, set, listed, letters⟩ := positionsLetters placed
    have letter := List.all_eq_true.mp
      (by decide : memberSets.all (fun set => set.all fun c => !c.isDigit) = true) set listed
    cases first : member.toList.head? with
    | none => rfl
    | some c => simpa using List.all_eq_true.mp letter c (letters c (List.mem_of_head? first))
  | builtin reached ok each => exact arguments named each
  | function found output each => exact arguments (exports _ _ found) each
  | @texture sampler coordinates fed placed =>
    refine callFractioned (by decide)
      (List.forall_mem_cons.mpr ⟨operands _ fed, List.forall_mem_singleton.mpr ?_⟩)
    rcases placed with rfl | ⟨e, fed', rfl⟩
    · exact wordFractioned (by decide)
    · exact operands e fed'
  | black label =>
    have text : "vec4(0.0, 0.0, 0.0, 1.0)" = call "vec4" ["0.0", "0.0", "0.0", "1.0"] := by decide
    exact text ▸ callFractioned (by decide) (by simpa using ⟨zeroPoint, onePoint⟩)
  | displayed fed ok => exact displayedFractioned ok (operands _ fed)

end Yields
end NodeKind

/-! Numbers that nodes write -/

/- Every channel is a double as well. -/
theorem Number.Single.widenedFinite (x : Single) : (x.convert : Double).isFinite = x.isFinite := by
  cases x with
  | finite s v =>
    have lowest : Format.single.lowest = -149 := rfl
    have power : twoTo Format.single.fraction = 8388608 := rfl
    have infinity : Format.single.infinity = 2139095040 := rfl
    have word := v.isLt
    have digits : Format.single.significand v < twoTo 53 := by
      rw [show twoTo 53 = 9007199254740992 from rfl, Format.significand, power]
      split <;> omega
    have scale : -1022 ≤ Format.single.scale v ∧ Format.single.scale v ≤ 900 := by
      rw [Format.scale, lowest, power]
      omega
    obtain ⟨w, same⟩ := Format.doubleHas digits scale.1 scale.2
    rw [Binary.convertExact s same.symm]
    rfl
  | _ => rfl

namespace NodeKind
open Fragment (Fractioned HoldsNonFinite)
open Recipe

section Parameters

variable {α : Type} {node : Node} {name : String} {kind : ParameterKind} {read : Parameter → Option α}
  {default : α}

def valueOf (node : Node) (name : String) (read : Parameter → Option α) (default : α) : α :=
  ((node.parameters.get? name).bind read).getD default

def Readable (node : Node) (name : String) (read : Parameter → Option α) : Prop :=
  ∀ p, node.parameters.get? name = some p → ∃ a, read p = some a

theorem parameterOk {g : String → Except Failure (Option Expression)} {a : α} :
    (parameter node name kind read default).follow g = .ok a ↔
      Readable node name read ∧ a = valueOf node name read default := by
  unfold parameter Readable valueOf
  cases node.parameters.get? name with
  | none => simp [follow, eq_comm]
  | some p => cases value : read p <;> simp [value, follow, eq_comm]

theorem readableGiven (given : valueOf node name read default ≠ default) : Readable node name read := by
  intro p found
  rw [valueOf, found, Option.bind_some] at given
  cases value : read p with
  | none => exact absurd (by rw [value, Option.getD_none]) given
  | some a => exact ⟨a, rfl⟩

end Parameters

def numberOf (node : Node) (name : String) : Double := valueOf node name Parameter.number? .zero
def colorOf (node : Node) : Color := valueOf node "color" Parameter.color? .black

def WritesNonFinite (node : Node) (isOpen : String → Prop) : NodeKind → Prop
  | literal base => base ≠ .bool ∧ (numberOf node "value").isFinite = false
  | color => ∃ x ∈ (colorOf node).channels, x.isFinite = false
  | compose size => ∃ name ∈ components.take size, isOpen name ∧ (numberOf node name).isFinite = false
  | _ => False

variable {s : Surroundings} {node : Node} {g : String → Except Failure (Option Expression)} {c : Compiled}

theorem literalRefused {base : Scalar} (number : base ≠ .bool)
    (other : (numberOf node "value").isFinite = false) :
    ((literal base).compile s node).follow g =
      .error (.unsupported (.literal (numberOf node "value") base)) := by
  have given : numberOf node "value" ≠ .zero := fun zero => by
    rw [zero] at other
    cases other
  have read : (Recipe.number node "value").follow g = .ok (numberOf node "value") :=
    parameterOk.mpr ⟨readableGiven given, rfl⟩
  have text : (literalText base node).follow g =
      .error (.unsupported (.literal (numberOf node "value") base)) := by
    rw [literalText, if_neg number, followOn read, if_neg (by simp [other])]
    rfl
  rw [compile, followBind, text]
  rfl

theorem colorMade (other : ∃ x ∈ (colorOf node).channels, x.isFinite = false) :
    (compileColor node).follow g = .ok (.single "out" (.simple (.vec 4) (colorText (colorOf node)))) := by
  have given : colorOf node ≠ .black := by
    intro black
    rw [black] at other
    revert other
    decide
  exact followOn (parameterOk.mpr ⟨readableGiven given, rfl⟩) _

theorem colorOk (ok : (compileColor node).follow g = .ok c) :
    c = .single "out" (.simple (.vec 4) (colorText (colorOf node))) := by
  obtain ⟨color, read, ok⟩ := followBindOk ok
  obtain ⟨_, rfl⟩ := parameterOk.mp read
  cases ok
  rfl

theorem componentOk {size : Nat} {name : String} {part : String × Bool} :
    (componentOf size node name).follow g = .ok part ↔
      (∃ e, g name = .ok (some e) ∧ e.type.toImplicitly .float = true ∧ part = (e.text, e.trivial)) ∨
        g name = .ok none ∧ Readable node name Parameter.number? ∧
          part = (floatText (numberOf node name), true) := by
  constructor
  · intro ok
    obtain ⟨answer, told, ok⟩ := inputOk ok
    cases answer with
    | none =>
      obtain ⟨x, read, ok⟩ := followBindOk ok
      obtain ⟨readable, rfl⟩ := parameterOk.mp read
      cases ok
      exact .inr ⟨told, readable, rfl⟩
    | some e =>
      dsimp only at ok
      split at ok <;> cases ok
      rename_i fits
      exact .inl ⟨e, told, fits, rfl⟩
  · rintro (⟨e, told, fits, rfl⟩ | ⟨told, readable, rfl⟩)
    · rw [componentOf, followOn ((followInput _ _).trans told)]
      simp only [fits, if_true]
      rfl
    · rw [componentOf, followOn ((followInput _ _).trans told)]
      exact followOn (parameterOk.mpr ⟨readable, rfl⟩) _

/- A vector is made unless a component is of no use or a parameter is no number; which numbers they are is not
asked. -/
theorem composeMade {size : Nat} : (∃ c, (compileCompose size node).follow g = .ok c) ↔
    ∀ name ∈ components.take size, (∃ e, g name = .ok (some e) ∧ e.type.toImplicitly .float = true) ∨
      g name = .ok none ∧ Readable node name Parameter.number? := by
  constructor
  · rintro ⟨c, ok⟩ name listed
    obtain ⟨parts, each, _⟩ := followBindOk ok
    rw [followMapM] at each
    obtain ⟨part, made⟩ := mapMEach each name listed
    rcases componentOk.mp made with ⟨e, told, fits, _⟩ | ⟨told, readable, _⟩
    · exact .inl ⟨e, told, fits⟩
    · exact .inr ⟨told, readable⟩
  · intro each
    have parts : ∀ name ∈ components.take size, ∃ part, (componentOf size node name).follow g = .ok part := by
      intro name listed
      rcases each name listed with ⟨e, told, fits⟩ | ⟨told, readable⟩
      · exact ⟨_, componentOk.mpr (.inl ⟨e, told, fits, rfl⟩)⟩
      · exact ⟨_, componentOk.mpr (.inr ⟨told, readable, rfl⟩)⟩
    obtain ⟨parts, made⟩ := mapMSucceeds parts
    rw [← followMapM] at made
    exact ⟨_, followOn made _⟩

theorem composeOk {size : Nat} (ok : (compileCompose size node).follow g = .ok c) :
    ∃ parts : List (String × Bool), List.Forall₂ (fun name part =>
        (∃ e, g name = .ok (some e) ∧ part.1 = e.text) ∨
          g name = .ok none ∧ part.1 = floatText (numberOf node name)) (components.take size) parts ∧
      c = .single "out" ⟨.vec size, call (ValueType.vec size).name (parts.map Prod.fst),
        parts.all Prod.snd⟩ := by
  obtain ⟨parts, each, ok⟩ := followBindOk ok
  rw [followMapM] at each
  cases ok
  refine ⟨parts, (mapMResults each).imp fun name part made => ?_, rfl⟩
  rcases componentOk.mp made with ⟨e, told, _, rfl⟩ | ⟨told, _, rfl⟩
  · exact .inl ⟨e, told, rfl⟩
  · exact .inr ⟨told, rfl⟩

end NodeKind

def Compiled.HoldsNonFinite (c : Compiled) : Prop :=
  (∃ b ∈ c.bindings, Fragment.HoldsNonFinite b.text.toList) ∨
    ∃ socket e, c.outputs.get? socket = some e ∧ Fragment.HoldsNonFinite e.text.toList

theorem Compiled.fractionedFinite {c : Compiled}
    (fractioned : c.All (fun b => Fragment.Fractioned b.text.toList)
      fun e => Fragment.Fractioned e.text.toList) : ¬ c.HoldsNonFinite := by
  rintro (⟨b, member, holds⟩ | ⟨socket, e, found, holds⟩)
  · exact (fractioned.bindings b member).finite holds
  · exact (fractioned.outputs socket e found).finite holds

namespace NodeKind
open Fragment (Fractioned)
open Recipe

variable {s : Surroundings} {node : Node} {g : String → Except Failure (Option Expression)} {c : Compiled}

/- Calls hold what their arguments hold. -/
theorem callHolds {name text : String} {texts : List String} (member : text ∈ texts)
    (holds : Fragment.HoldsNonFinite text.toList) : Fragment.HoldsNonFinite (call name texts).toList := by
  have between : ∀ {lists : List (List Char)} {l}, l ∈ lists → l <:+: [',', ' '].intercalate lists := by
    intro lists l listed
    refine List.infix_of_mem_flatten ?_
    induction lists with
    | nil => cases listed
    | cons first rest ih =>
      cases rest with
      | nil => exact listed
      | cons second rest =>
        rcases List.mem_cons.mp listed with rfl | later
        · exact List.mem_cons_self
        · exact List.mem_cons_of_mem _ (List.mem_cons_of_mem _ (ih later))
  obtain ⟨nonFinite, listed, inside⟩ := holds
  refine ⟨nonFinite, listed, inside.trans ?_⟩
  have front : text.toList <:+: (", ".intercalate texts).toList := by
    rw [String.toList_intercalate]
    exact between (List.mem_map_of_mem member)
  rw [call, String.toList_append, String.toList_append]
  exact front.trans ⟨_, _, rfl⟩

/- Where all numbers to write are finite, what comes of inputs with points behind digits only has points
behind digits only. -/
theorem compileFractioned {kind : NodeKind} (named : kind.Named) (exports : s.exports.Named)
    {isOpen : String → Prop} (opened : ∀ name, g name = .ok none → isOpen name)
    (finite : ¬ kind.WritesNonFinite node isOpen)
    (fed : ∀ name e, g name = .ok (some e) → Fractioned e.text.toList)
    (ok : (kind.compile s node).follow g = .ok c) :
    c.All (fun b => Fractioned b.text.toList) fun e => Fractioned e.text.toList := by
  cases free : kind.writesAny with
  | false =>
    have answers : ∀ name e, g name = .ok (some e) → ∃ name, g name = .ok (some e) :=
      fun name e told => ⟨name, told⟩
    have operands : ∀ e, (∃ name, g name = .ok (some e)) → Fractioned e.text.toList :=
      fun e told => told.elim fun name => fed name e
    refine (followEnsures (kind.compileYields s node) answers ok).mono ?_ fun e yields => ?_
    · rintro b ⟨e, size, told, _, _, rfl⟩
      exact operands e told
    · exact yieldsFractioned operands named exports free yields
  | true =>
    cases kind with
    | color =>
      cases colorOk ok
      refine Compiled.singleAll "out" (callFractioned (by decide) fun text member => ?_)
      obtain ⟨x, channel, rfl⟩ := List.mem_map.mp member
      refine floatTextFractioned ?_
      rw [Number.Single.widenedFinite]
      by_contra other
      exact finite ⟨x, channel, by simpa using other⟩
    | compose size =>
      obtain ⟨parts, each, rfl⟩ := composeOk ok
      refine Compiled.singleAll "out"
        (callFractioned (ValueType.vectorWordy .float size) fun text argument => ?_)
      obtain ⟨part, member, rfl⟩ := List.mem_map.mp argument
      obtain ⟨name, listed, ⟨e, told, text⟩ | ⟨told, text⟩⟩ := ValueType.pairedMember each member
      · rw [text]
        exact fed name e told
      · rw [text]
        refine floatTextFractioned ?_
        by_contra other
        exact finite ⟨name, listed, opened name told, by simpa using other⟩
    | _ => cases free

/- Where not all of them are and the node compiles, one that is not finite is written. -/
theorem compileNonFinite {kind : NodeKind} {isOpen : String → Prop}
    (opened : ∀ name, isOpen name → g name = .ok none) (writes : kind.WritesNonFinite node isOpen)
    (ok : (kind.compile s node).follow g = .ok c) : c.HoldsNonFinite := by
  cases kind with
  | literal base =>
    rw [literalRefused writes.1 writes.2] at ok
    cases ok
  | color =>
    obtain ⟨x, channel, other⟩ := writes
    cases colorOk ok
    refine .inr ⟨"out", _, rfl, callHolds (List.mem_map_of_mem channel) (floatTextNonFinite ?_)⟩
    rw [Number.Single.widenedFinite, other]
  | compose size =>
    obtain ⟨name, listed, isOpen, other⟩ := writes
    obtain ⟨parts, each, rfl⟩ := composeOk ok
    obtain ⟨part, member, fed⟩ := ValueType.pairedMember each.flip listed
    refine .inr ⟨"out", _, rfl, callHolds (List.mem_map_of_mem member) ?_⟩
    rcases fed with ⟨e, told, _⟩ | ⟨_, text⟩
    · cases told.symm.trans (opened name isOpen)
    · rw [text]
      exact floatTextNonFinite other
  | _ => cases writes

end NodeKind
end ShaderNet

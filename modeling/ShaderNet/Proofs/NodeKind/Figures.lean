import ShaderNet.NodeKind.Recipes

/-! Numbers as they are written in shaders: figures, and at most one sign, in front. If a number is finite,
a digit comes first or right after the sign. -/
namespace ShaderNet

namespace Number

def isFigure (c : Char) : Bool := c.isAlphanum || c = '.'

def Figures (text : List Char) : Prop :=
  ∃ body, (text = body ∨ text = '-' :: body) ∧ ∀ c ∈ body, isFigure c = true

def Led (text : List Char) : Prop :=
  ∃ d rest, d.isDigit = true ∧ (text = d :: rest ∨ text = '-' :: d :: rest)

variable {text tail : List Char} {c : Char}

theorem digitFigure (digit : c.isDigit = true) : isFigure c = true := by
  simp [isFigure, Char.isAlphanum, digit]

theorem Figures.absent (figures : Figures text) (other : isFigure c = false) (unsigned : c ≠ '-') :
    c ∉ text := by
  obtain ⟨body, shape, all⟩ := figures
  have apart : c ∉ body := fun inside => Bool.false_ne_true (other.symm.trans (all c inside))
  rcases shape with rfl | rfl
  · exact apart
  · simp [unsigned, apart]

theorem Figures.append (figures : Figures text) (more : ∀ c ∈ tail, isFigure c = true) :
    Figures (text ++ tail) := by
  obtain ⟨body, shape, all⟩ := figures
  refine ⟨body ++ tail, ?_, List.forall_mem_append.mpr ⟨all, more⟩⟩
  rcases shape with rfl | rfl
  · exact .inl rfl
  · exact .inr rfl

theorem Led.append (led : Led text) (tail : List Char) : Led (text ++ tail) := by
  obtain ⟨d, rest, digit, rfl | rfl⟩ := led
  · exact ⟨d, rest ++ tail, digit, .inl rfl⟩
  · exact ⟨d, rest ++ tail, digit, .inr rfl⟩

theorem Led.signed (led : Led ('-' :: text)) : ∃ d, text.head? = some d ∧ d.isDigit = true := by
  obtain ⟨d, rest, digit, same | same⟩ := led
  · cases same
    cases digit
  · cases same
    exact ⟨d, rfl, digit⟩

theorem toDigitsLed (n : Nat) : ∃ d rest, Nat.toDigits 10 n = d :: rest ∧
    ∀ c ∈ d :: rest, c.isDigit = true := by
  cases digits : Nat.toDigits 10 n with
  | nil => exact absurd digits Nat.toDigits_ne_nil
  | cons d rest =>
    refine ⟨d, rest, rfl, fun c member => ?_⟩
    exact Nat.isDigit_of_mem_toDigits (by decide) (by decide) (digits ▸ member)

theorem positionalLed (x : Decimal) : ∃ d rest, x.positional = d :: rest ∧ d.isDigit = true ∧
    ∀ c ∈ d :: rest, isFigure c = true := by
  obtain ⟨d, rest, digits, all⟩ := toDigitsLed x.digits
  have figures : ∀ c ∈ d :: rest, isFigure c = true := fun c member => digitFigure (all c member)
  have zeros : ∀ n, ∀ c ∈ Decimal.zeros n, isFigure c = true := by
    intro n c member
    rw [(List.mem_replicate.mp member).2]
    rfl
  have first := all d List.mem_cons_self
  unfold Decimal.positional
  dsimp only
  rw [digits]
  split
  · exact ⟨d, rest ++ _, rfl, first, List.forall_mem_append.mpr ⟨figures, zeros _⟩⟩
  · split
    · rename_i inside
      obtain ⟨k, after⟩ : ∃ k, ((d :: rest).length + x.exponent : Int).toNat = k + 1 :=
        ⟨((d :: rest).length + x.exponent : Int).toNat - 1, by omega⟩
      rw [after]
      refine ⟨d, rest.take k ++ '.' :: rest.drop k, rfl, first, ?_⟩
      refine List.forall_mem_cons.mpr ⟨digitFigure first, List.forall_mem_append.mpr ⟨?_, ?_⟩⟩
      · exact fun c member => figures c (List.mem_cons_of_mem _ (List.mem_of_mem_take member))
      · refine List.forall_mem_cons.mpr ⟨rfl, fun c member => ?_⟩
        exact figures c (List.mem_cons_of_mem _ (List.mem_of_mem_drop member))
    · refine ⟨'0', '.' :: Decimal.zeros _ ++ d :: rest, rfl, rfl, ?_⟩
      refine List.forall_mem_cons.mpr ⟨rfl, List.forall_mem_cons.mpr ⟨rfl, ?_⟩⟩
      exact List.forall_mem_append.mpr ⟨zeros _, figures⟩

theorem finiteText {f : Format} (s : Bool) (w : Fin f.infinity) :
    ∃ d rest, (Binary.plainText (.finite s w)).toList = (if s then ['-'] else []) ++ d :: rest ∧
      d.isDigit = true ∧ ∀ c ∈ d :: rest, isFigure c = true := by
  simp only [Binary.plainText, String.toList_ofList]
  by_cases zero : w.val = 0
  · exact ⟨'0', [], by rw [if_pos zero], rfl, by simp [isFigure]⟩
  · obtain ⟨d, rest, same, digit, figures⟩ := positionalLed (Decimal.shortest f .up w)
    exact ⟨d, rest, by rw [if_neg zero, same], digit, figures⟩

theorem plainTextFigures {f : Format} (x : Binary f) : Figures x.plainText.toList := by
  cases x with
  | nan => exact ⟨"NaN".toList, .inl rfl, List.all_eq_true.mp (by decide)⟩
  | infinite s =>
    have figures : ∀ c ∈ "inf".toList, isFigure c = true := List.all_eq_true.mp (by decide)
    cases s with
    | false => exact ⟨"inf".toList, .inl rfl, figures⟩
    | true => exact ⟨"inf".toList, .inr (by simp [Binary.plainText]), figures⟩
  | finite s w =>
    obtain ⟨d, rest, same, _, figures⟩ := finiteText s w
    rw [same]
    cases s with
    | false => exact ⟨_, .inl rfl, figures⟩
    | true => exact ⟨_, .inr rfl, figures⟩

theorem plainTextLed {f : Format} {x : Binary f} (finite : x.isFinite = true) :
    Led x.plainText.toList := by
  cases x with
  | finite s w =>
    obtain ⟨d, rest, same, digit, _⟩ := finiteText s w
    rw [same]
    cases s with
    | false => exact ⟨d, rest, digit, .inl rfl⟩
    | true => exact ⟨d, rest, digit, .inr rfl⟩
  | _ => cases finite

theorem natText (n : Nat) : ∃ d rest, (toString n).toList = d :: rest ∧
    ∀ c ∈ d :: rest, c.isDigit = true := by
  rw [Nat.toString_eq_ofList_toDigits, String.toList_ofList]
  exact toDigitsLed n

theorem intText (n : Int) : Figures (toString n).toList ∧ Led (toString n).toList := by
  cases n with
  | ofNat n =>
    obtain ⟨d, rest, same, all⟩ := natText n
    have text : (toString (Int.ofNat n)).toList = d :: rest := same
    rw [text]
    exact ⟨⟨_, .inl rfl, fun c member => digitFigure (all c member)⟩,
      d, rest, all d List.mem_cons_self, .inl rfl⟩
  | negSucc n =>
    obtain ⟨d, rest, same, all⟩ := natText (n + 1)
    have text : (toString (Int.negSucc n)).toList = '-' :: d :: rest := by
      rw [show toString (Int.negSucc n) = "-" ++ toString (n + 1) from rfl, String.toList_append, same]
      rfl
    rw [text]
    exact ⟨⟨_, .inr rfl, fun c member => digitFigure (all c member)⟩,
      d, rest, all d List.mem_cons_self, .inr rfl⟩

end Number

namespace NodeKind
open Number

theorem floatTextShape (x : Double) : ∃ tail, (∀ c ∈ tail, isFigure c = true) ∧
    (floatText x).toList = x.plainText.toList ++ tail := by
  unfold floatText
  dsimp only
  split
  · exact ⟨[], List.forall_mem_nil _, (List.append_nil _).symm⟩
  · exact ⟨".0".toList, List.all_eq_true.mp (by decide), String.toList_append⟩

theorem floatTextFigures (x : Double) : Figures (floatText x).toList := by
  obtain ⟨tail, more, same⟩ := floatTextShape x
  exact same ▸ (plainTextFigures x).append more

theorem numberTextFigures (base : Scalar) (x : Double) : Figures (numberText base x).toList := by
  have float := floatTextFigures x
  cases base with
  | bool => exact float
  | int => exact (intText _).1
  | uint =>
    rw [numberText, String.toList_append]
    exact (intText _).1.append (List.all_eq_true.mp (by decide))
  | float => exact float
  | double =>
    rw [numberText, String.toList_append]
    exact float.append (List.all_eq_true.mp (by decide))

theorem numberTextLed (base : Scalar) {x : Double} (finite : x.isFinite = true) :
    Led (numberText base x).toList := by
  have float : Led (floatText x).toList := by
    obtain ⟨tail, _, same⟩ := floatTextShape x
    exact same ▸ (plainTextLed finite).append tail
  cases base with
  | bool => exact float
  | int => exact (intText _).2
  | uint =>
    rw [numberText, String.toList_append]
    exact (intText _).2.append _
  | float => exact float
  | double =>
    rw [numberText, String.toList_append]
    exact float.append _

end NodeKind
end ShaderNet

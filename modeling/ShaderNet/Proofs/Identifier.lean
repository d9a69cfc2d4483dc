import Mathlib.Data.List.Basic
import ShaderNet.Fragment.Grammar
import ShaderNet.Identifier

/-! Identifiers of shader source keep names apart: no two names are encoded alike, and no two sockets
are bound to one variable. Underscores of an encoded name stand alone and between other characters. -/
namespace ShaderNet.Identifier
open Fragment (continuesWord)

/-! Digits -/

theorem digitInjective : ∀ m < 16, ∀ n < 16, Nat.digitChar m = Nat.digitChar n → m = n := by decide

theorem hexInjective {m n : Nat} (same : Nat.toDigits 16 m = Nat.toDigits 16 n) : m = n := by
  induction m using Nat.strongRecOn generalizing n with
  | ind m ih =>
    rcases Nat.lt_or_ge m 16 with small | big <;> rcases Nat.lt_or_ge n 16 with small' | big'
    · rw [Nat.toDigits_of_lt_base small, Nat.toDigits_of_lt_base small'] at same
      exact digitInjective m small n small' (List.singleton_inj.mp same)
    · rw [Nat.toDigits_of_lt_base small, Nat.toDigits_of_base_le (by decide) big'] at same
      simpa using congrArg List.length same
    · rw [Nat.toDigits_of_base_le (by decide) big, Nat.toDigits_of_lt_base small'] at same
      simpa using congrArg List.length same
    · rw [Nat.toDigits_of_base_le (by decide) big, Nat.toDigits_of_base_le (by decide) big'] at same
      obtain ⟨front, last⟩ := List.append_inj' same rfl
      have high := ih (m / 16) (by omega) front
      have low := digitInjective _ (Nat.mod_lt m (by decide)) _ (Nat.mod_lt n (by decide))
        (List.singleton_inj.mp last)
      omega

theorem hexDigit : ∀ n < 16, (Nat.digitChar n).isAlphanum = true ∧ Nat.digitChar n ≠ 'X' := by decide

theorem memHex {n : Nat} {c : Char} (member : c ∈ Nat.toDigits 16 n) :
    c.isAlphanum = true ∧ c ≠ 'X' := by
  induction n using Nat.strongRecOn with
  | ind n ih =>
    rw [Nat.toDigits_eq_if (by decide)] at member
    split at member
    · rename_i small
      exact List.mem_singleton.mp member ▸ hexDigit n small
    · rcases List.mem_append.mp member with member | member
      · exact ih (n / 16) (by omega) member
      · exact List.mem_singleton.mp member ▸ hexDigit _ (Nat.mod_lt n (by decide))

/-! Encodings -/

def mark (c : Char) : List Char := if c = 'X' then [] else Nat.toDigits 16 c.toNat

theorem markFree (c : Char) : 'X' ∉ mark c := by
  unfold mark
  split
  · exact List.not_mem_nil
  · exact fun member => (memHex member).2 rfl

theorem markInjective {c d : Char} (same : mark c = mark d) : c = d := by
  unfold mark at same
  split at same <;> split at same
  · rename_i left right
    rw [left, right]
  · exact absurd same.symm Nat.toDigits_ne_nil
  · exact absurd same Nat.toDigits_ne_nil
  · exact Char.toNat_inj.mp (hexInjective same)

theorem encodeCharCases (inner : Bool) (c : Char) :
    (encodeChar inner c = [c] ∧ c ≠ 'X' ∧ continuesWord c = true) ∨
      encodeChar inner c = 'X' :: mark c ++ ['X'] := by
  unfold encodeChar mark
  split
  · exact .inr rfl
  · rename_i other
    split
    · rename_i kept
      simp only [Bool.and_eq_true, decide_eq_true_eq] at kept
      exact .inl ⟨by rw [kept.1], other, by rw [kept.1]; decide⟩
    · split
      · rename_i letter
        exact .inl ⟨rfl, other, by simp [continuesWord, letter]⟩
      · exact .inr rfl

theorem splitFirst {mark : Char} {x y r s : List Char} (left : mark ∉ x) (right : mark ∉ y)
    (same : x ++ mark :: r = y ++ mark :: s) : x = y ∧ r = s := by
  induction x generalizing y with
  | nil =>
    cases y with
    | nil => exact ⟨rfl, (List.cons.inj same).2⟩
    | cons d y => exact absurd ((List.cons.inj same).1 ▸ List.mem_cons_self) right
  | cons c x ih =>
    cases y with
    | nil => exact absurd ((List.cons.inj same).1 ▸ List.mem_cons_self) left
    | cons d y =>
      obtain ⟨rfl, rest⟩ := List.cons.inj same
      obtain ⟨rfl, tails⟩ := ih (fun member => left (List.mem_cons_of_mem _ member))
        (fun member => right (List.mem_cons_of_mem _ member)) rest
      exact ⟨rfl, tails⟩

/- No character is encoded as the beginning of another. -/
theorem encodeCharApart {i j : Bool} {c d : Char} {r s : List Char}
    (same : encodeChar i c ++ r = encodeChar j d ++ s) : c = d ∧ r = s := by
  rcases encodeCharCases i c with ⟨left, other, _⟩ | left <;>
    rcases encodeCharCases j d with ⟨right, other', _⟩ | right <;> rw [left, right] at same
  · exact List.cons.inj same
  · exact absurd (List.cons.inj same).1 other
  · exact absurd (List.cons.inj same).1.symm other'
  · have inside : mark c ++ 'X' :: r = mark d ++ 'X' :: s := by simpa using same
    obtain ⟨marks, rest⟩ := splitFirst (markFree c) (markFree d) inside
    exact ⟨markInjective marks, rest⟩

theorem encodeCharSome (inner : Bool) (c : Char) : encodeChar inner c ≠ [] := by
  rcases encodeCharCases inner c with ⟨same, _⟩ | same <;> simp [same]

theorem encodeFromInjective {before : Option Char} {l m : List Char}
    (same : encodeFrom before l = encodeFrom before m) : l = m := by
  induction l generalizing before m with
  | nil =>
    cases m with
    | nil => rfl
    | cons d m => exact absurd (List.append_eq_nil_iff.mp same.symm).1 (encodeCharSome _ _)
  | cons c l ih =>
    cases m with
    | nil => exact absurd (List.append_eq_nil_iff.mp same).1 (encodeCharSome _ _)
    | cons d m =>
      obtain ⟨rfl, rest⟩ := encodeCharApart same
      rw [ih rest]

theorem encodeInjective {a b : String} (same : encode a = encode b) : a = b :=
  String.toList_inj.mp (encodeFromInjective (String.ofList_inj.mp same))

theorem encodeWord (name : String) {c : Char} (member : c ∈ (encode name).toList) :
    continuesWord c = true := by
  have general : ∀ (l : List Char) before, c ∈ encodeFrom before l → continuesWord c = true := by
    intro l
    induction l with
    | nil => exact fun _ member => nomatch member
    | cons d l ih =>
      intro before member
      rcases List.mem_append.mp member with member | member
      · rcases encodeCharCases (isInner before l) d with ⟨same, _, word⟩ | same <;> rw [same] at member
        · exact List.mem_singleton.mp member ▸ word
        · have parts : c = 'X' ∨ c ∈ mark d := by
            simpa [or_comm, or_assoc, or_left_comm] using member
          rcases parts with rfl | inside
          · decide
          · unfold mark at inside
            split at inside
            · cases inside
            · simp [continuesWord, (memHex inside).1]
      · exact ih _ member
  exact general name.toList none (by simpa [encode] using member)

/-! Underscores -/

def Doubled (text : List Char) : Prop := ['_', '_'] <:+: text

theorem doubledAppend {x y : List Char} : Doubled (x ++ y) ↔
    Doubled x ∨ Doubled y ∨ x.getLast? = some '_' ∧ y.head? = some '_' := by
  unfold Doubled
  rw [List.infix_append_iff_ne_nil]
  refine or_congr_right (or_congr_right ⟨?_, fun ⟨ends, starts⟩ => ?_⟩)
  · rintro ⟨_ | ⟨c, _ | ⟨d, before⟩⟩, behind, left, right, same, ends, starts⟩
    · exact absurd rfl left
    · cases same
      exact ⟨List.singleton_suffix_iff_getLast?_eq_some.mp ends,
        List.singleton_prefix_iff_head?_eq_some.mp starts⟩
    · exact absurd (List.append_eq_nil_iff.mp (List.cons.inj (List.cons.inj same).2).2.symm).2 right
  · exact ⟨['_'], ['_'], List.cons_ne_nil _ _, List.cons_ne_nil _ _, rfl,
      List.singleton_suffix_iff_getLast?_eq_some.mpr ends,
      List.singleton_prefix_iff_head?_eq_some.mpr starts⟩

theorem doubledMember {text : List Char} (doubled : Doubled text) : '_' ∈ text :=
  doubled.subset List.mem_cons_self

theorem doubledAfter {x y : List Char} (free : '_' ∉ x) : Doubled (x ++ y) ↔ Doubled y := by
  rw [doubledAppend]
  constructor
  · rintro (doubled | doubled | ⟨ends, _⟩)
    · exact absurd (doubledMember doubled) free
    · exact doubled
    · exact absurd (List.mem_of_getLast? ends) free
  · exact fun doubled => .inr (.inl doubled)

theorem doubledCons {text : List Char} :
    Doubled ('_' :: text) ↔ text.head? = some '_' ∨ Doubled text := by
  have single : ¬ Doubled ['_'] := fun doubled => absurd doubled.length_le (by decide)
  rw [← List.singleton_append, doubledAppend]
  constructor
  · rintro (doubled | doubled | ⟨_, starts⟩)
    · exact absurd doubled single
    · exact .inr doubled
    · exact .inl starts
  · rintro (starts | doubled)
    · exact .inr (.inr ⟨rfl, starts⟩)
    · exact .inr (.inl doubled)

theorem encodeCharFree (inner : Bool) (c : Char) :
    (c = '_' ∧ inner = true ∧ encodeChar inner c = ['_']) ∨ '_' ∉ encodeChar inner c := by
  unfold encodeChar
  split
  · exact .inr (by decide)
  · split
    · rename_i kept
      simp only [Bool.and_eq_true, decide_eq_true_eq] at kept
      exact .inl ⟨kept.1, kept.2, rfl⟩
    · refine .inr fun member => ?_
      split at member
      · rename_i letter
        rw [← List.mem_singleton.mp member] at letter
        cases letter
      · have digit : '_' ∈ Nat.toDigits 16 c.toNat := by simpa using member
        cases (memHex digit).1

theorem encodeFromHead {before : Option Char} {l : List Char}
    (starts : (encodeFrom before l).head? = some '_') :
    ∃ rest, l = '_' :: rest ∧ isInner before rest = true := by
  cases l with
  | nil => cases starts
  | cons c rest =>
    rw [encodeFrom, List.head?_append_of_ne_nil _ (encodeCharSome _ _)] at starts
    rcases encodeCharFree (isInner before rest) c with ⟨rfl, inner, _⟩ | free
    · exact ⟨rest, rfl, inner⟩
    · exact absurd (List.mem_of_head? starts) free

theorem encodeFromLast {before : Option Char} {l : List Char} :
    (encodeFrom before l).getLast? ≠ some '_' := by
  induction l generalizing before with
  | nil => exact fun ends => by cases ends
  | cons c rest ih =>
    cases rest with
    | nil =>
      intro ends
      rw [encodeFrom, encodeFrom, List.append_nil] at ends
      rcases encodeCharFree (isInner before []) c with ⟨_, inner, _⟩ | free
      · cases before <;> cases inner
      · exact free (List.mem_of_getLast? ends)
    | cons d rest =>
      have some : encodeFrom (some c) (d :: rest) ≠ [] := fun none =>
        encodeCharSome _ _ (List.append_eq_nil_iff.mp none).1
      rw [encodeFrom, List.getLast?_append_of_ne_nil _ some]
      exact ih

theorem encodeFromSingle {before : Option Char} {l : List Char} : ¬ Doubled (encodeFrom before l) := by
  induction l generalizing before with
  | nil => exact fun doubled => absurd (doubledMember doubled) List.not_mem_nil
  | cons c rest ih =>
    rcases encodeCharFree (isInner before rest) c with ⟨rfl, _, same⟩ | free
    · -- the next character is none that an underscore before it lets stay
      rw [encodeFrom, same, List.singleton_append, doubledCons]
      rintro (starts | doubled)
      · obtain ⟨behind, _, inner⟩ := encodeFromHead starts
        cases behind <;> simp [isInner] at inner
      · exact ih doubled
    · rw [encodeFrom, doubledAfter free]
      exact ih

theorem encodeHead (name : String) : (encode name).toList.head? ≠ some '_' := by
  intro starts
  rw [encode, String.toList_ofList] at starts
  obtain ⟨rest, _, inner⟩ := encodeFromHead starts
  cases rest <;> cases inner

theorem encodeLast (name : String) : (encode name).toList.getLast? ≠ some '_' := by
  rw [encode, String.toList_ofList]
  exact encodeFromLast

theorem encodeSingle (name : String) : ¬ Doubled (encode name).toList := by
  rw [encode, String.toList_ofList]
  exact encodeFromSingle

/-! Uniforms and bindings -/

theorem uniformText (id : String) : (uniform id).toList = 'u' :: '_' :: (encode id).toList := by
  simp [uniform, String.toList_append]

theorem uniformInjective {a b : String} (same : uniform a = uniform b) : a = b := by
  have texts := congrArg String.toList same
  rw [uniformText, uniformText] at texts
  exact encodeInjective (String.toList_inj.mp (List.cons.inj (List.cons.inj texts).2).2)

theorem uniformLetter (id : String) : (uniform id).toList.head? = some 'u' := by
  rw [uniformText]
  rfl

theorem bindingText (node socket : String) :
    (binding node socket).toList = 'n' :: Nat.toDigits 10 (encode node).length ++
      '_' :: ((encode node).toList ++ '_' :: (encode socket).toList) := by
  simp [binding, String.toList_append]

theorem bindingLetter (node socket : String) : (binding node socket).toList.head? = some 'n' := by
  rw [bindingText]
  rfl

theorem bindingInjective {u v s t : String} (same : binding u s = binding v t) : u = v ∧ s = t := by
  have texts := congrArg String.toList same
  rw [bindingText, bindingText, List.cons_append, List.cons_append] at texts
  obtain ⟨digits, rest⟩ := splitFirst Nat.underscore_not_in_toDigits Nat.underscore_not_in_toDigits
    (List.cons.inj texts).2
  have length : (encode u).length = (encode v).length := by
    have value := congrArg (Nat.ofDigitChars 10 · 0) digits
    simpa only [Nat.ofDigitChars_ten_toDigits] using value
  obtain ⟨ids, sockets⟩ := List.append_inj rest (by simpa only [String.length_toList] using length)
  exact ⟨encodeInjective (String.toList_inj.mp ids),
    encodeInjective (String.toList_inj.mp (List.cons.inj sockets).2)⟩

theorem bindingWord {node socket : String} {c : Char} (member : c ∈ (binding node socket).toList) :
    continuesWord c = true := by
  rw [bindingText] at member
  simp only [List.cons_append, List.mem_cons, List.mem_append] at member
  rcases member with rfl | digit | rfl | node | rfl | socket
  · decide
  · have digit := Nat.isDigit_of_mem_toDigits (by decide) (by decide) digit
    simp [continuesWord, Char.isAlphanum, digit]
  · decide
  · exact encodeWord _ node
  · decide
  · exact encodeWord _ socket

/- What stands around the name of the node has an underscore on either side. -/
theorem bindingDoubled {node socket : String} : Doubled (binding node socket).toList ↔ node = "" := by
  have front : '_' ∉ 'n' :: Nat.toDigits 10 (encode node).length := by simp
  have back : ¬ Doubled ('_' :: (encode socket).toList) := by
    rw [doubledCons]
    exact fun impossible => impossible.elim (encodeHead socket) (encodeSingle socket)
  rw [bindingText, doubledAfter front, doubledCons]
  constructor
  · rintro (starts | doubled)
    · cases id : (encode node).toList with
      | nil => exact encodeInjective (String.toList_inj.mp id)
      | cons c rest =>
        rw [id] at starts
        exact absurd (id ▸ starts) (encodeHead node)
    · rcases doubledAppend.mp doubled with doubled | doubled | ⟨ends, _⟩
      · exact absurd doubled (encodeSingle node)
      · exact absurd doubled back
      · exact absurd ends (encodeLast node)
  · rintro rfl
    exact .inl rfl

theorem identifiersApart :
    (Function.Injective encode ∧ ∀ name,
      (∀ c ∈ (encode name).toList, c.isAlphanum = true ∨ c = '_') ∧
      (encode name).toList.head? ≠ some '_' ∧ (encode name).toList.getLast? ≠ some '_' ∧
      ¬ ['_', '_'] <:+: (encode name).toList) ∧
    Function.Injective uniform ∧
    ∀ u v s t, binding u s = binding v t → u = v ∧ s = t := by
  refine ⟨⟨fun _ _ => encodeInjective, fun name => ⟨fun c member => ?_, encodeHead name,
    encodeLast name, encodeSingle name⟩⟩, fun _ _ => uniformInjective, fun _ _ _ _ => bindingInjective⟩
  simpa [continuesWord] using encodeWord name member

theorem identifiersApartMarked :
    (encode "_a__b_" = "X5fXaX5fXX5fXbX5fX" ∧ 'f' ∈ (encode "_a__b_").toList ∧
      ('f'.isAlphanum = true ∨ 'f' = '_') ∧ ¬ ['_', '_'] <:+: (encode "_a__b_").toList) ∧
    encode "s_1" ≠ encode "s-1" ∧ uniform "X" ≠ uniform "XX" ∧
    binding "a_b" "c" ≠ binding "a" "b_c" := by
  obtain ⟨⟨encodings, shape⟩, uniforms, bindings⟩ := identifiersApart
  obtain ⟨characters, _, _, single⟩ := shape "_a__b_"
  have inside : 'f' ∈ (encode "_a__b_").toList := by decide
  exact ⟨⟨by decide, inside, characters 'f' inside, single⟩, encodings.ne (by decide),
    uniforms.ne (by decide), fun same => absurd (bindings _ _ _ _ same).2 (by decide)⟩

end ShaderNet.Identifier

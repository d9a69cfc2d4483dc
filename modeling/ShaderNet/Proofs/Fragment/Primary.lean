import ShaderNet.Proofs.Fragment.Words

/-! Primaries: what members can be selected from without brackets. No text can be read as two different
primaries, so that a member appended to a primary is selected from all of it. -/
namespace ShaderNet.Fragment

/-! Brackets -/

def opened : Nat → List Char → Option Nat
  | depth, [] => some depth
  | depth, c :: rest =>
    if c = '(' then opened (depth + 1) rest
    else if c = ')' then
      if depth = 0 then none else opened (depth - 1) rest
    else opened depth rest

def Balanced (text : List Char) : Prop := opened 0 text = some 0

instance (text : List Char) : Decidable (Balanced text) :=
  inferInstanceAs (Decidable (opened 0 text = some 0))

theorem openedAppend (depth : Nat) (a b : List Char) :
    opened depth (a ++ b) = (opened depth a).bind fun deep => opened deep b := by
  induction a generalizing depth with
  | nil => rfl
  | cons c a ih =>
    simp only [List.cons_append, opened]
    split
    · exact ih _
    · split
      · split
        · rfl
        · exact ih _
      · exact ih _

theorem openedDeeper {depth deep : Nat} {a : List Char} (ends : opened depth a = some deep) (more : Nat) :
    opened (depth + more) a = some (deep + more) := by
  induction a generalizing depth with
  | nil =>
    cases ends
    rfl
  | cons c a ih =>
    simp only [opened] at ends ⊢
    split at ends
    · rename_i opens
      rw [if_pos opens, Nat.add_right_comm]
      exact ih ends
    · rename_i other
      rw [if_neg other]
      split at ends
      · rename_i closes
        rw [if_pos closes]
        split at ends
        · cases ends
        · rename_i inside
          rw [if_neg (by omega), show depth + more - 1 = depth - 1 + more by omega]
          exact ih ends
      · rename_i plain
        rw [if_neg plain]
        exact ih ends

variable {a b : List Char}

theorem balancedAppend (left : Balanced a) (right : Balanced b) : Balanced (a ++ b) := by
  rw [Balanced, openedAppend, left]
  exact right

theorem balancedPlain (plain : ∀ c ∈ a, c ≠ '(' ∧ c ≠ ')') : Balanced a := by
  induction a with
  | nil => rfl
  | cons c a ih =>
    obtain ⟨⟨other, open'⟩, rest⟩ := List.forall_mem_cons.mp plain
    rw [Balanced, opened, if_neg other, if_neg open']
    exact ih rest

theorem balancedWithin (inside : Balanced a) : Balanced ('(' :: (a ++ [')'])) := by
  have deeper : opened 1 a = some 1 := openedDeeper inside 1
  rw [Balanced, opened, if_pos rfl, openedAppend, deeper]
  rfl

/- The bracket that closes a balanced text is the first that can. -/
theorem balancedShorter {rest rest' more : List Char} (longer : b = a ++ more)
    (same : ')' :: rest = more ++ ')' :: rest') (left : Balanced a) (right : Balanced b) :
    a = b ∧ rest = rest' := by
  cases more with
  | nil =>
    rw [List.append_nil] at longer
    exact ⟨longer.symm, (List.cons.inj same).2⟩
  | cons c more =>
    obtain ⟨rfl, _⟩ := List.cons.inj same
    rw [Balanced, longer, openedAppend, left] at right
    cases right

theorem balancedUnique {rest rest' : List Char} (same : a ++ ')' :: rest = b ++ ')' :: rest')
    (left : Balanced a) (right : Balanced b) : a = b ∧ rest = rest' := by
  rcases List.append_eq_append_iff.mp same with ⟨more, longer, tail⟩ | ⟨more, longer, tail⟩
  · exact balancedShorter longer tail left right
  · obtain ⟨same, tails⟩ := balancedShorter longer tail right left
    exact ⟨same.symm, tails.symm⟩

/-! Names -/

def isName : List Char → Bool
  | [] => false
  | c :: rest => startsWord c && rest.all continuesWord

theorem nameWord (named : isName a = true) : ∀ c ∈ a, continuesWord c = true := by
  cases a with
  | nil => cases named
  | cons c a =>
    obtain ⟨start, rest⟩ := Bool.and_eq_true_iff.mp named
    exact List.forall_mem_cons.mpr ⟨startContinues start, List.all_eq_true.mp rest⟩

/- Words end where something else begins. -/
theorem wordUnique {x y : List Char} (same : a ++ x = b ++ y) (left : ∀ c ∈ a, continuesWord c = true)
    (right : ∀ c ∈ b, continuesWord c = true) (ends : ∀ c, x.head? = some c → continuesWord c = false)
    (ends' : ∀ c, y.head? = some c → continuesWord c = false) : a = b ∧ x = y := by
  have cut : ∀ {w z : List Char}, (∀ c ∈ w, continuesWord c = true) →
      (∀ c, z.head? = some c → continuesWord c = false) → (w ++ z).takeWhile continuesWord = w := by
    intro w z word stop
    rw [List.takeWhile_append_of_pos word]
    cases z with
    | nil => simp
    | cons c z => simp [stop c rfl]
  have words : a = b := by rw [← cut left ends, same, cut right ends']
  rw [words] at same
  exact ⟨words, List.append_cancel_left same⟩

/-! Primaries -/

structure Primary where
  name : List Char
  arguments : Option (List Char)
  members : List (List Char)
  named : isName name = true
  balanced : ∀ text, arguments = some text → Balanced text
  selected : ∀ member ∈ members, isName member = true

namespace Primary

def callText : Option (List Char) → List Char
  | none => []
  | some arguments => '(' :: (arguments ++ [')'])

def memberText (members : List (List Char)) : List Char := members.flatMap fun member => '.' :: member

def text (p : Primary) : List Char := p.name ++ (callText p.arguments ++ memberText p.members)

def select (p : Primary) (member : List Char) (named : isName member = true) : Primary :=
  { p with
    members := p.members ++ [member]
    selected := List.forall_mem_append.mpr ⟨p.selected, List.forall_mem_singleton.mpr named⟩ }

theorem selectText (p : Primary) {member : List Char} (named : isName member = true) :
    (p.select member named).text = p.text ++ '.' :: member := by
  simp [text, select, memberText]

theorem membersHead {members : List (List Char)} {c : Char} (first : (memberText members).head? = some c) :
    c = '.' := by
  cases members with
  | nil => cases first
  | cons member rest =>
    cases first
    rfl

theorem tailEnds (arguments : Option (List Char)) (members : List (List Char)) {c : Char}
    (first : (callText arguments ++ memberText members).head? = some c) : continuesWord c = false := by
  cases arguments with
  | none =>
    rw [membersHead first]
    rfl
  | some arguments =>
    cases first
    rfl

theorem membersUnique {members members' : List (List Char)}
    (left : ∀ member ∈ members, isName member = true) (right : ∀ member ∈ members', isName member = true)
    (same : memberText members = memberText members') : members = members' := by
  have cut : ∀ {l : List (List Char)}, (∀ member ∈ l, isName member = true) →
      Text.splitOn '.' (memberText l) = [] :: l := by
    intro l each
    refine @Text.splitOnPieces '.' [] l (List.forall_mem_cons.mpr ⟨List.not_mem_nil, ?_⟩)
    intro member listed inside
    exact absurd (nameWord (each member listed) '.' inside) (by decide)
  exact (List.cons.inj ((cut left).symm.trans (same ▸ cut right))).2

theorem calledApart (arguments : List Char) (l l' : List (List Char)) :
    callText (some arguments) ++ memberText l ≠ memberText l' := by
  intro same
  have first : (memberText l').head? = some '(' := same ▸ rfl
  cases membersHead first

theorem tailUnique {arguments arguments' : Option (List Char)} {members members' : List (List Char)}
    (left : ∀ text, arguments = some text → Balanced text)
    (right : ∀ text, arguments' = some text → Balanced text)
    (same : callText arguments ++ memberText members = callText arguments' ++ memberText members') :
    arguments = arguments' ∧ memberText members = memberText members' := by
  cases arguments with
  | none =>
    cases arguments' with
    | none => exact ⟨rfl, same⟩
    | some inside => exact absurd same.symm (calledApart inside _ _)
  | some inside =>
    cases arguments' with
    | none => exact absurd same (calledApart inside _ _)
    | some inside' =>
      simp only [callText, List.cons_append, List.cons.injEq, true_and, List.append_assoc] at same
      obtain ⟨rfl, rest⟩ := balancedUnique same (left _ rfl) (right _ rfl)
      exact ⟨rfl, rest⟩

theorem textInjective {p q : Primary} (same : p.text = q.text) : p = q := by
  obtain ⟨names, tails⟩ := wordUnique same (nameWord p.named) (nameWord q.named)
    (fun _ => tailEnds p.arguments p.members) (fun _ => tailEnds q.arguments q.members)
  obtain ⟨arguments, rest⟩ := tailUnique p.balanced q.balanced tails
  have members := membersUnique p.selected q.selected rest
  cases p
  cases q
  cases names
  cases arguments
  cases members
  rfl

def Reads (p : Primary) (text : String) : Prop := ∀ q : Primary, q.text = text.toList ↔ q = p

theorem reads {p : Primary} {text : String} (written : p.text = text.toList) : p.Reads text :=
  fun _ => ⟨fun same => textInjective (same.trans written.symm), fun same => same ▸ written⟩

end Primary
end ShaderNet.Fragment

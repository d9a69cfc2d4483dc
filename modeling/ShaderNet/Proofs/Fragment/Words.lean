import ShaderNet.Fragment.Exports
import ShaderNet.Proofs.Identifier
import ShaderNet.Proofs.Table
import ShaderNet.Proofs.Text

/-! The variables that a piece of shader source refers to. -/
namespace ShaderNet.Fragment

def wordsFrom (word : List Char) : List Char → List (List Char)
  | [] => [word]
  | c :: rest =>
    if continuesWord c then wordsFrom (word ++ [c]) rest
    else if c = '(' then wordsFrom [] rest
    else word :: wordsFrom [] rest

/-- A name stands in a text as a whole word, and not to be called. -/
def Mentions (text name : String) : Prop := name.toList ∈ wordsFrom [] text.toList

instance (text name : String) : Decidable (Mentions text name) :=
  inferInstanceAs (Decidable (name.toList ∈ wordsFrom [] text.toList))

theorem wordsSome (word a : List Char) : wordsFrom word a ≠ [] := by
  induction a generalizing word with
  | nil => simp [wordsFrom]
  | cons c a ih =>
    simp only [wordsFrom]
    split
    · exact ih _
    · split
      · exact ih _
      · exact List.cons_ne_nil _ _

/- What ends a word ends it whatever follows. -/
theorem wordsAppend {c : Char} (stop : continuesWord c = false) (word a b : List Char) :
    wordsFrom word (a ++ c :: b) =
      (if c = '(' then (wordsFrom word a).dropLast else wordsFrom word a) ++ wordsFrom [] b := by
  induction a generalizing word with
  | nil =>
    simp only [List.nil_append, wordsFrom, stop, Bool.false_eq_true, if_false]
    split <;> rfl
  | cons d a ih =>
    simp only [List.cons_append, wordsFrom]
    split
    · exact ih _
    · split
      · exact ih _
      · rw [ih, List.dropLast_cons_of_ne_nil (wordsSome [] a)]
        split <;> rfl

theorem wordsWhole {a : List Char} (word : ∀ c ∈ a, continuesWord c = true) (before : List Char) :
    wordsFrom before a = [before ++ a] := by
  induction a generalizing before with
  | nil => simp [wordsFrom]
  | cons c a ih =>
    rw [wordsFrom, if_pos (word c List.mem_cons_self),
      ih (fun d member => word d (List.mem_cons_of_mem _ member))]
    simp

theorem wordsChars {a word w : List Char} (member : w ∈ wordsFrom word a) {c : Char} (inside : c ∈ w) :
    c ∈ word ∨ c ∈ a := by
  induction a generalizing word with
  | nil => exact .inl (List.mem_singleton.mp member ▸ inside)
  | cons d a ih =>
    simp only [wordsFrom] at member
    split at member
    · rcases ih member with here | here
      · rcases List.mem_append.mp here with here | here
        · exact .inl here
        · exact .inr (List.mem_singleton.mp here ▸ List.mem_cons_self)
      · exact .inr (List.mem_cons_of_mem _ here)
    · split at member
      · rcases ih member with here | here
        · cases here
        · exact .inr (List.mem_cons_of_mem _ here)
      · rcases List.mem_cons.mp member with rfl | member
        · exact .inl inside
        · rcases ih member with here | here
          · cases here
          · exact .inr (List.mem_cons_of_mem _ here)

/-! Texts that refer to no variables but some -/

def Clear (known : String → Prop) (text : String) : Prop :=
  ∀ node socket, Mentions text (Identifier.binding node socket) →
    known (Identifier.binding node socket)

def Begins (text : String) : Bool := text.toList.head?.any fun c => !continuesWord c

def Ends (text : String) : Bool := text.toList.getLast?.any fun c => !continuesWord c

variable {known more : String → Prop} {a b : String}

theorem Clear.mono (clear : Clear known a) (less : ∀ name, known name → more name) : Clear more a :=
  fun node socket member => less _ (clear node socket member)

theorem endsAppend (ends : Ends b = true) : Ends (a ++ b) = true := by
  simp only [Ends, Option.any_eq_true] at ends ⊢
  obtain ⟨c, last, stop⟩ := ends
  exact ⟨c, by simp [String.toList_append, last], stop⟩

theorem clearBefore (begins : Begins b = true) (left : Clear known a) (right : Clear known b) :
    Clear known (a ++ b) := by
  intro node socket member
  simp only [Begins, Option.any_eq_true] at begins
  obtain ⟨c, first, stop⟩ := begins
  obtain ⟨rest, text⟩ := List.head?_eq_some_iff.mp first
  have stop : continuesWord c = false := by simpa using stop
  have words : wordsFrom [] b.toList = (if c = '(' then [] else [[]]) ++ wordsFrom [] rest := by
    rw [text]
    exact (wordsAppend stop [] [] rest).trans (by split <;> rfl)
  rw [Mentions, String.toList_append, text, wordsAppend stop] at member
  rcases List.mem_append.mp member with here | here
  · refine left node socket ?_
    split at here
    · exact (List.dropLast_sublist _).subset here
    · exact here
  · refine right node socket ?_
    rw [Mentions, words]
    exact List.mem_append_right _ here

theorem clearAfter (ends : Ends a = true) (left : Clear known a) (right : Clear known b) :
    Clear known (a ++ b) := by
  intro node socket member
  simp only [Ends, Option.any_eq_true] at ends
  obtain ⟨c, last, stop⟩ := ends
  obtain ⟨front, text⟩ := List.getLast?_eq_some_iff.mp last
  have stop : continuesWord c = false := by simpa using stop
  rw [Mentions, String.toList_append, text, List.append_assoc, List.singleton_append,
    wordsAppend stop] at member
  rcases List.mem_append.mp member with here | here
  · refine left node socket ?_
    rw [Mentions, text, wordsAppend stop]
    exact List.mem_append_left _ here
  · exact right node socket here

theorem clearPlain (plain : '_' ∉ a.toList) : Clear known a := by
  intro node socket member
  have inside : '_' ∈ (Identifier.binding node socket).toList := by simp [Identifier.bindingText]
  exact absurd ((wordsChars member inside).resolve_left List.not_mem_nil) plain

def Encloses (before after : String) : Bool :=
  Ends before && Begins after && '_' ∉ before.toList && '_' ∉ after.toList

theorem clearBetween {text : String} (encloses : Encloses a b = true) (clear : Clear known text) :
    Clear known (a ++ text ++ b) := by
  simp only [Encloses, Bool.and_eq_true, decide_eq_true_eq] at encloses
  obtain ⟨⟨⟨ends, begins⟩, plain⟩, plain'⟩ := encloses
  exact clearBefore begins (clearAfter ends (clearPlain plain) clear) (clearPlain plain')

def Wordy (text : String) : Prop := ∀ c ∈ text.toList, continuesWord c = true

instance (text : String) : Decidable (Wordy text) :=
  decidable_of_iff (text.toList.all continuesWord = true) List.all_eq_true

theorem wordyAppend (left : Wordy a) (right : Wordy b) : Wordy (a ++ b) := by
  intro c member
  rw [String.toList_append] at member
  exact (List.mem_append.mp member).elim (left c) (right c)

theorem wordyNat (n : Nat) : Wordy (toString n) := by
  intro c member
  rw [Nat.toString_eq_ofList_toDigits, String.toList_ofList] at member
  have digit := Nat.isDigit_of_mem_toDigits (by decide) (by decide) member
  simp [continuesWord, Char.isAlphanum, digit]

theorem clearWord (wordy : Wordy a) (other : a.toList.head? ≠ some 'n') : Clear known a := by
  intro node socket member
  rw [Mentions, wordsWhole wordy] at member
  refine absurd ?_ other
  rw [← List.nil_append a.toList, ← List.mem_singleton.mp member, Identifier.bindingText]
  rfl

theorem clearBinding {node socket : String} (here : known (Identifier.binding node socket)) :
    Clear known (Identifier.binding node socket) := by
  intro node' socket' member
  rw [Mentions, wordsWhole fun _ => Identifier.bindingWord] at member
  have same := String.toList_inj.mp (List.mem_singleton.mp member)
  rw [same]
  exact here

theorem clearCalled (wordy : Wordy a) : Clear known (a ++ "(") := by
  intro node socket member
  have opened : continuesWord '(' = false := by decide
  have none : wordsFrom [] (a ++ "(").toList = [[]] := by
    rw [String.toList_append]
    refine (wordsAppend opened [] a.toList []).trans ?_
    simp [wordsWhole wordy, wordsFrom]
  rw [Mentions, none, List.mem_singleton, Identifier.bindingText] at member
  cases member

theorem clearList {texts : List String} (each : ∀ text ∈ texts, Clear known text) :
    Clear known (", ".intercalate texts) := by
  refine Text.intercalateInduct (clearPlain (by decide)) (fun a b left right => ?_) each
  exact clearAfter (endsAppend (by decide)) (clearBefore (by decide) left (clearPlain (by decide))) right

theorem clearCall (wordy : Wordy a) {texts : List String} (each : ∀ text ∈ texts, Clear known text) :
    Clear known (a ++ "(" ++ ", ".intercalate texts ++ ")") :=
  clearBefore (by decide) (clearAfter (endsAppend (by decide)) (clearCalled wordy) (clearList each))
    (clearPlain (by decide))

/-! The functions that fragments export are called by words. -/

theorem startContinues {c : Char} (start : startsWord c = true) : continuesWord c = true := by
  simp only [startsWord, continuesWord, Char.isAlphanum, Bool.or_eq_true] at start ⊢
  exact start.imp_left .inl

theorem wordWordy {cs rest : List Char} {w : Word} (read : word? cs = some (w, rest)) :
    Wordy w.text := by
  cases cs with
  | nil => cases read
  | cons c cs =>
    simp only [word?] at read
    split at read
    · rename_i start
      cases read
      intro d member
      rw [String.toList_ofList] at member
      rcases List.mem_cons.mp member with rfl | member
      · exact startContinues start
      · exact List.all_eq_true.mp List.all_takeWhile d member
    · cases read

theorem functionWordy {cs rest : List Char} {f : FunctionForm} (read : function? cs = some (f, rest)) :
    Wordy f.name.text := by
  simp only [function?, Option.bind_eq_bind, Option.bind_eq_some_iff] at read
  obtain ⟨_, _, ⟨name, _⟩, named, _, _, _, _, _, _, same⟩ := read
  cases same
  exact wordWordy named

theorem itemWordy {cs rest : List Char} {f : FunctionForm}
    (read : item? cs = some (.function f, rest)) : Wordy f.name.text := by
  unfold item? at read
  split at read
  · cases read
  · split at read
    · rename_i found
      cases read
      exact functionWordy found
    · simp at read

theorem itemsWordy {n : Nat} {cs : List Char} {items : List Item} (read : itemsFrom? n cs = some items)
    {f : FunctionForm} (member : .function f ∈ items) : Wordy f.name.text := by
  induction n generalizing cs items with
  | zero => cases read
  | succ n ih =>
    simp only [itemsFrom?] at read
    split at read
    · cases read
      cases member
    · simp only [Option.bind_eq_bind, Option.bind_eq_some_iff] at read
      obtain ⟨⟨item, rest⟩, first, others, later, same⟩ := read
      cases same
      rcases List.mem_cons.mp member with rfl | member
      · exact itemWordy first
      · exact ih later member

theorem exportFunctionName {o : Origin} {pragmas : List String} {f : FunctionForm}
    {function : ExportedFunction} (ok : exportFunction o pragmas f = .ok function) :
    function.name = f.name.text := by
  unfold exportFunction at ok
  cases output : exportOutput o f.result with
  | error e => rw [output] at ok; cases ok
  | ok type =>
    cases parameters : f.parameters.mapM (exportParameter o) with
    | error e => rw [output, parameters] at ok; cases ok
    | ok ps =>
      rw [output, parameters] at ok
      cases ok
      rfl

/- Whatever is exported was read from a function of the source. -/
theorem exportItemsEach {good : ExportedFunction → Prop} {o : Origin} {items : List Item}
    {pending : Option (List String)} {done functions : List ExportedFunction}
    (each : ∀ f, .function f ∈ items → ∀ pragmas function,
      exportFunction o pragmas f = .ok function → good function)
    (before : ∀ f ∈ done, good f) (ok : exportItems o pending done items = .ok functions) :
    ∀ f ∈ functions, good f := by
  induction items generalizing pending done with
  | nil =>
    cases ok
    exact before
  | cons item rest ih =>
    have ih {pending done} := @ih pending done fun f member => each f (List.mem_cons_of_mem _ member)
    cases item with
    | directive text => exact ih before ok
    | statement => exact ih before ok
    | function f =>
      simp only [exportItems] at ok
      split at ok
      · split at ok
        · cases exported : exportFunction o _ f with
          | error e => rw [exported] at ok; cases ok
          | ok function =>
            rw [exported] at ok
            simp only [bind, Except.bind] at ok
            split at ok
            · cases ok
            · refine ih (fun g member => ?_) ok
              rcases List.mem_append.mp member with member | member
              · exact before g member
              · rw [List.mem_singleton.mp member]
                exact each f List.mem_cons_self _ function exported
        · exact ih before ok
      · exact ih before ok

theorem exportsEach {good : ExportedFunction → Prop} {path source : String}
    {functions : List ExportedFunction}
    (each : ∀ items, items? source.toList = some items → ∀ f, .function f ∈ items →
      ∀ pragmas function, exportFunction ⟨path, source.toList⟩ pragmas f = .ok function → good function)
    (ok : exports path source = .ok functions) : ∀ f ∈ functions, good f := by
  unfold exports at ok
  split at ok
  · cases ok
  · rename_i items read
    exact exportItemsEach (each items read) (List.forall_mem_nil _) ok

theorem exportsWordy {path source : String} {functions : List ExportedFunction}
    (ok : exports path source = .ok functions) : ∀ f ∈ functions, Wordy f.name := by
  refine exportsEach (fun items read f member pragmas function exported => ?_) ok
  rw [exportFunctionName exported]
  exact itemsWordy read member

end Fragment

def Exports.Named (exports : Exports) : Prop :=
  ∀ name f, exports.get? name = some f → Fragment.Wordy f.name

theorem Exports.collectEach {good : ExportedFunction → Prop}
    (each : ∀ path source functions, Fragment.exports path source = .ok functions →
      ∀ f ∈ functions, good f)
    (includes : List Include) : ∀ name f, (collect includes).1.get? name = some f → good f := by
  have general : ∀ (includes : List Include) (exports : Exports) errors,
      (∀ name f, exports.get? name = some f → good f) →
      ∀ name f, (ofIncludes includes exports errors).1.get? name = some f → good f := by
    intro includes
    induction includes with
    | nil => exact fun _ _ known => known
    | cons i rest ih =>
      intro exports errors known
      unfold ofIncludes
      split
      · exact ih _ _ known
      · split
        · rename_i functions ok
          refine ih _ _ fun name f found => ?_
          rw [Table.getOverlay] at found
          rcases Option.or_eq_some_iff.mp found with here | ⟨_, here⟩
          · obtain ⟨g, member, same⟩ :=
              List.mem_map.mp (List.mem_reverse.mp (Table.findMember here))
            cases same
            exact each _ _ functions ok f member
          · exact known name f here
        · exact ih _ _ known
  exact general includes ∅ [] fun _ _ found => by cases found

theorem Exports.collectNamed (includes : List Include) : (collect includes).1.Named :=
  collectEach (fun _ _ _ => Fragment.exportsWordy) includes

end ShaderNet

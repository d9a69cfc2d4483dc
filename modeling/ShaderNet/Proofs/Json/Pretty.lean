import ShaderNet.Proofs.Number.Numeral

/-! Trees read from their written form. Everything is read as it was written, except that a number is
read as its numeral says. -/
namespace ShaderNet.Json
open Number (Binary Double Single)

/-! Blanks -/

theorem dropBlanksTwice (cs : List Char) : dropBlanks (dropBlanks cs) = dropBlanks cs := by
  induction cs with
  | nil => rfl
  | cons c cs ih =>
    by_cases blank : c = ' ' ∨ c = '\n' ∨ c = '\t' ∨ c = '\r' <;> simp [dropBlanks, blank, ih]

theorem dropMargin (depth : Nat) (cs : List Char) :
    dropBlanks ((margin depth).toList ++ cs) = dropBlanks cs := by
  have spaces : ∀ n, dropBlanks (List.replicate n ' ' ++ cs) = dropBlanks cs := by
    intro n
    induction n with
    | zero => rfl
    | succ n ih => simpa [List.replicate_succ, dropBlanks] using ih
  simpa [margin, dropBlanks] using spaces (2 * depth)

theorem valueBlanks (n room : Nat) (cs : List Char) :
    value? n room (dropBlanks cs) = value? n room cs := by
  cases n with
  | zero => simp [value?]
  | succ n => simp only [value?, dropBlanksTwice]

theorem itemsBlanks (n room : Nat) (cs : List Char) :
    items? n room (dropBlanks cs) = items? n room cs := by
  cases n with
  | zero => simp [items?]
  | succ n => simp only [items?, valueBlanks]

theorem fieldsBlanks (n room : Nat) (cs : List Char) :
    fields? n room (dropBlanks cs) = fields? n room cs := by
  cases n with
  | zero => simp [fields?]
  | succ n => simp only [fields?, dropBlanksTwice]

/-! Values that hold no others -/

theorem digitValueRead {c : Char} (digit : c.isDigit = true) (n room : Nat) (cs : List Char) :
    value? (n + 1) room (c :: cs) = number? false (c :: cs) := by
  have other : ∀ d : Char, d.isDigit = false → c ≠ d := by
    rintro d none rfl
    rw [digit] at none
    cases none
  have same : dropBlanks (c :: cs) = c :: cs := by
    simp [dropBlanks, other ' ' rfl, other '\n' rfl, other '\t' rfl, other '\r' rfl]
  rw [value?, same]
  split
  all_goals first | rfl | (rename_i first; exact absurd (List.cons.inj first).1 (other _ rfl))

theorem minusRead (n room : Nat) (cs : List Char) :
    value? (n + 1) room ('-' :: cs) = number? true cs := by
  simp [value?, dropBlanks]

theorem numeralRead {numeral : Numeral} (written : numeral.Written) (s : Bool) (n room : Nat)
    {rest : List Char} (ends : Ends rest) :
    value? (n + 1) room (Binary.sign s ++ numeral.text ++ rest) = some (numeral.value s, rest) := by
  have read := numeral.read written s ends
  cases s with
  | true => exact (minusRead n room _).trans read
  | false =>
    obtain ⟨c, cs, whole⟩ := List.exists_cons_of_ne_nil written.some
    have first : c.isDigit = true := written.whole c (by simp [whole])
    have text : numeral.text ++ rest =
        c :: (cs ++ Numeral.pointed numeral.fraction ++ Numeral.scaled numeral.power ++ rest) := by
      simp [Numeral.text, whole]
    rw [text] at read
    rw [Binary.sign, if_neg (by simp), List.nil_append, text, digitValueRead first, read]

theorem nullRead (n room : Nat) (rest : List Char) :
    value? (n + 1) room ("null".toList ++ rest) = some (.null, rest) := by
  simp [value?, dropBlanks]

def reread {f : Number.Format} (range : Number.PointRange) : Binary f → Json
  | .finite s w => (Binary.numeral range w).value s
  | _ => .null

theorem binaryRead {f : Number.Format} (range : Number.PointRange) (x : Binary f) (n room : Nat)
    {rest : List Char} (ends : Ends rest) :
    value? (n + 1) room (((Binary.documentText range x).getD "null").toList ++ rest) =
      some (reread range x, rest) := by
  cases x with
  | finite s w =>
    rw [Binary.documentNumeral, Option.getD_some, String.toList_ofList]
    exact numeralRead (Binary.numeralWritten range w) s n room ends
  | _ => exact nullRead n room rest

theorem naturalRead {k : Nat} (small : k ≤ largestWord) (n room : Nat) {rest : List Char}
    (ends : Ends rest) :
    value? (n + 1) room ((toString (k : Int)).toList ++ rest) = some (.integer k, rest) := by
  have written : Numeral.Written ⟨Nat.toDigits 10 k, [], none⟩ := by
    refine ⟨fun _ => toDigitsDigit, Nat.toDigits_ne_nil, fun tail same => ?_, List.forall_mem_nil _⟩
    rcases Nat.eq_zero_or_pos k with rfl | positive
    · cases same
      rfl
    · obtain ⟨c, cs, other, lead⟩ := digitsLead positive
      exact absurd (List.cons.inj (other.symm.trans same)).1 lead
  have value : Numeral.value ⟨Nat.toDigits 10 k, [], none⟩ false = .integer k := by
    simp [Numeral.value, wholeNumber, naturalDigits, small]
  have read := numeralRead written false n room ends
  have text : (toString (k : Int)).toList = Nat.toDigits 10 k := by
    change (Nat.repr k).toList = _
    rw [Nat.repr, String.toList_ofList]
  rw [value] at read
  rw [text]
  simpa [Binary.sign, Numeral.text, Numeral.pointed, Numeral.scaled] using read

theorem quotedRead (s : String) (n room : Nat) (rest : List Char) :
    value? (n + 1) room ((quoted s).toList ++ rest) = some (.string s, rest) := by
  obtain ⟨inner, text, read⟩ := textQuoted s rest
  simp [value?, text, dropBlanks, read]

/-! Trees -/

mutual

def resaved : Json → Json
  | .array items => .array (resavedItems items)
  | .object fields => .object (resavedFields fields)
  | .double x => reread ⟨-4, 16⟩ x
  | .single x => reread ⟨-5, 13⟩ x
  | .unreadable => .null
  | j => j

def resavedItems : List Json → List Json
  | [] => []
  | j :: rest => j.resaved :: resavedItems rest

def resavedFields : List (String × Json) → List (String × Json)
  | [] => []
  | (name, j) :: rest => (name, j.resaved) :: resavedFields rest

end

mutual

def Fits (room : Nat) : Json → Prop
  | .integer n => 0 ≤ n ∧ n ≤ largestWord
  | .array items => 0 < room ∧ AllFit (room - 1) items
  | .object fields => 0 < room ∧ FieldsFit (room - 1) fields
  | _ => True

def AllFit (room : Nat) : List Json → Prop
  | [] => True
  | j :: rest => j.Fits room ∧ AllFit room rest

def FieldsFit (room : Nat) : List (String × Json) → Prop
  | [] => True
  | (_, j) :: rest => j.Fits room ∧ FieldsFit room rest

end

mutual

def weight : Json → Nat
  | .array items => 1 + weightItems items
  | .object fields => 1 + weightFields fields
  | _ => 1

def weightItems : List Json → Nat
  | [] => 0
  | j :: rest => 1 + j.weight + weightItems rest

def weightFields : List (String × Json) → Nat
  | [] => 0
  | (_, j) :: rest => 1 + j.weight + weightFields rest

end

def isPiece : Json → Bool
  | .array (_ :: _) | .object (_ :: _) => false
  | _ => true

theorem pieceRead {j : Json} (piece : j.isPiece = true) {room : Nat} (fits : j.Fits room) (n : Nat)
    {rest : List Char} (ends : Ends rest) :
    value? (n + 1) room (j.atom.toList ++ rest) = some (j.resaved, rest) := by
  cases j with
  | null => exact nullRead n room rest
  | bool b => cases b <;> simp [atom, resaved, value?, dropBlanks]
  | integer k =>
    rw [Fits] at fits
    obtain ⟨m, rfl⟩ := Int.eq_ofNat_of_zero_le fits.1
    exact naturalRead (by omega) n room ends
  | double x => exact binaryRead _ x n room ends
  | single x => exact binaryRead _ x n room ends
  | string s => exact quotedRead s n room rest
  | array items =>
    cases items with
    | nil =>
      rw [Fits] at fits
      simp [atom, resaved, resavedItems, value?, dropBlanks, contain, Nat.ne_of_gt fits.1]
    | cons j rest => cases piece
  | object fields =>
    cases fields with
    | nil =>
      rw [Fits] at fits
      simp [atom, resaved, resavedFields, value?, dropBlanks, contain, Nat.ne_of_gt fits.1]
    | cons e rest => cases piece
  | unreadable => exact nullRead n room rest

theorem marginEnds (depth : Nat) (cs : List Char) : Ends ((margin depth).toList ++ cs) := by
  intro c first
  simp only [margin, String.toList_ofList, List.cons_append, List.head?_cons, Option.some.injEq] at first
  cases first
  decide

theorem commaEnds (cs : List Char) : Ends (',' :: cs) := by
  rintro c first
  cases first
  decide

theorem itemsMargin (n room depth : Nat) (cs : List Char) :
    items? n room ((margin depth).toList ++ cs) = items? n room cs := by
  rw [← itemsBlanks, dropMargin, itemsBlanks]

theorem fieldsMargin (n room depth : Nat) (cs : List Char) :
    fields? n room ((margin depth).toList ++ cs) = fields? n room cs := by
  rw [← fieldsBlanks, dropMargin, fieldsBlanks]

/- An array is read once its items are. -/
theorem arrayRead {n room : Nat} {cs rest : List Char} {items : List Json} (positive : 0 < room)
    (read : items? n (room - 1) cs = some (items, rest)) :
    value? (n + 1) room ('[' :: cs) = some (.array items, rest) := by
  rw [← itemsBlanks] at read
  have opened : dropBlanks ('[' :: cs) = '[' :: cs := by simp [dropBlanks]
  simp only [value?, opened]
  split
  · rename_i tail closed
    rw [closed] at read
    cases n with
    | zero => simp [items?] at read
    | succ n => cases n <;> simp [items?, value?, dropBlanks, number?, digits, digit?] at read
  · rw [read]
    simp [contain, Nat.ne_of_gt positive]

theorem namesRead (fields : List (String × Json)) :
    objectOf (fields.map fun e => (some e.1, e.2)) = .object fields := by
  have read : (fields.map fun e => (some e.1, e.2)).mapM
      (fun p => p.1.map fun name => (name, p.2)) = some fields := by
    induction fields with
    | nil => rfl
    | cons e rest ih => simp [ih]
  rw [objectOf, read]

theorem objectRead {n room : Nat} {cs rest : List Char} {fields : List (String × Json)}
    (positive : 0 < room)
    (read : fields? n (room - 1) cs = some (fields.map fun e => (some e.1, e.2), rest)) :
    value? (n + 1) room ('\x7b' :: cs) = some (.object fields, rest) := by
  rw [← fieldsBlanks] at read
  have opened : dropBlanks ('\x7b' :: cs) = '\x7b' :: cs := by simp [dropBlanks]
  simp only [value?, opened]
  split
  · rename_i tail closed
    rw [closed] at read
    cases n <;> simp [fields?, dropBlanks] at read
  · rw [read]
    simp [contain, namesRead, Nat.ne_of_gt positive]

theorem valueSpace (n room : Nat) (cs : List Char) : value? n room (' ' :: cs) = value? n room cs := by
  rw [← valueBlanks, ← valueBlanks n room cs]
  simp [dropBlanks]

/- A field is read once its value is. -/
theorem fieldRead (name : String) (text : String) {n room : Nat} {rest : List Char} {j : Json}
    (read : value? n room (text.toList ++ rest) = some (j, rest)) :
    (∀ tail, dropBlanks rest = '\x7d' :: tail → fields? (n + 1) room
      ((quoted name ++ ": " ++ text).toList ++ rest) = some ([(some name, j)], tail)) ∧
    ∀ tail fields left, dropBlanks rest = ',' :: tail → fields? n room tail = some (fields, left) →
      fields? (n + 1) room ((quoted name ++ ": " ++ text).toList ++ rest) =
        some ((some name, j) :: fields, left) := by
  obtain ⟨inner, quote, named⟩ := textQuoted name (':' :: ' ' :: (text.toList ++ rest))
  have read : value? n room (' ' :: (text.toList ++ rest)) = some (j, rest) := by rw [valueSpace, read]
  constructor
  · intro tail closed
    simp [fields?, quote, dropBlanks, named, read, closed]
  · intro tail fields left comma later
    simp [fields?, quote, dropBlanks, named, read, comma, later]

def joined (depth : Nat) (lines : List String) : List Char :=
  (("," ++ margin (depth + 1)).intercalate lines).toList

theorem joinedSingle (depth : Nat) (line : String) : joined depth [line] = line.toList := by
  simp [joined]

theorem joinedCons (depth : Nat) (line next : String) (lines : List String) :
    joined depth (line :: next :: lines) =
      line.toList ++ ',' :: ((margin (depth + 1)).toList ++ joined depth (next :: lines)) := by
  simp [joined, String.intercalate_cons_cons]

theorem blockText (opening closing : String) (depth : Nat) (lines : List String) :
    (block opening closing depth lines).toList = opening.toList ++ ((margin (depth + 1)).toList ++
      (joined depth lines ++ ((margin depth).toList ++ closing.toList))) := by
  simp [block, joined]

mutual

theorem prettyRead : (j : Json) → {n room : Nat} → (depth : Nat) → {rest : List Char} → j.Fits room →
    j.weight ≤ n → Ends rest →
    value? n room ((prettyAt depth j).toList ++ rest) = some (j.resaved, rest)
  | .array (i :: items), n, room, depth, rest, fits, enough, ends => by
    simp only [weight] at enough
    rw [Fits] at fits
    obtain ⟨n, rfl⟩ : ∃ m, n = m + 1 := ⟨n - 1, by omega⟩
    have read := itemsRead (i :: items) (n := n) depth rest (by simp) fits.2 (by omega)
    rw [← itemsMargin n (room - 1) (depth + 1)] at read
    simpa [prettyAt, blockText, resaved] using arrayRead fits.1 read
  | .object (e :: fields), n, room, depth, rest, fits, enough, ends => by
    simp only [weight] at enough
    rw [Fits] at fits
    obtain ⟨n, rfl⟩ : ∃ m, n = m + 1 := ⟨n - 1, by omega⟩
    have read := fieldsRead (e :: fields) (n := n) depth rest (by simp) fits.2 (by omega)
    rw [← fieldsMargin n (room - 1) (depth + 1)] at read
    simpa [prettyAt, blockText, resaved] using objectRead fits.1 read
  | .array [], n, room, depth, rest, fits, enough, ends
  | .object [], n, room, depth, rest, fits, enough, ends
  | .null, n, room, depth, rest, fits, enough, ends
  | .bool _, n, room, depth, rest, fits, enough, ends
  | .integer _, n, room, depth, rest, fits, enough, ends
  | .double _, n, room, depth, rest, fits, enough, ends
  | .single _, n, room, depth, rest, fits, enough, ends
  | .string _, n, room, depth, rest, fits, enough, ends
  | .unreadable, n, room, depth, rest, fits, enough, ends => by
    simp only [weight] at enough
    obtain ⟨n, rfl⟩ : ∃ m, n = m + 1 := ⟨n - 1, by omega⟩
    exact pieceRead rfl fits n ends

theorem itemsRead : (items : List Json) → {n room : Nat} → (depth : Nat) → (rest : List Char) →
    items ≠ [] → AllFit room items → weightItems items ≤ n →
    items? n room (joined depth (prettyItems (depth + 1) items) ++
      ((margin depth).toList ++ ']' :: rest)) = some (resavedItems items, rest)
  | [], _, _, _, _, empty, _, _ => absurd rfl empty
  | [j], n, room, depth, rest, _, fits, enough => by
    simp only [weightItems] at enough
    obtain ⟨n, rfl⟩ : ∃ m, n = m + 1 := ⟨n - 1, by omega⟩
    have read := prettyRead j (n := n) (depth + 1) fits.1 (by omega) (marginEnds depth (']' :: rest))
    have closed : dropBlanks ((margin depth).toList ++ ']' :: rest) = ']' :: rest := by
      simp [dropMargin, dropBlanks]
    simp [prettyItems, joinedSingle, items?, read, closed, resavedItems]
  | j :: i :: items, n, room, depth, rest, _, fits, enough => by
    simp only [weightItems] at enough
    obtain ⟨n, rfl⟩ : ∃ m, n = m + 1 := ⟨n - 1, by omega⟩
    have later := itemsRead (i :: items) (n := n) depth rest (by simp) fits.2
      (by simp only [weightItems]; omega)
    rw [← itemsMargin n room (depth + 1)] at later
    have read := prettyRead j (n := n) (depth + 1) fits.1 (by omega) (commaEnds
      ((margin (depth + 1)).toList ++ (joined depth (prettyItems (depth + 1) (i :: items)) ++
        ((margin depth).toList ++ ']' :: rest))))
    simp only [prettyItems, resavedItems] at later read ⊢
    simp [joinedCons, items?, read, dropBlanks, later]

theorem fieldsRead : (fields : List (String × Json)) → {n room : Nat} → (depth : Nat) →
    (rest : List Char) → fields ≠ [] → FieldsFit room fields → weightFields fields ≤ n →
    fields? n room (joined depth (prettyFields (depth + 1) fields) ++
      ((margin depth).toList ++ '\x7d' :: rest)) =
      some ((resavedFields fields).map fun e => (some e.1, e.2), rest)
  | [], _, _, _, _, empty, _, _ => absurd rfl empty
  | [(name, j)], n, room, depth, rest, _, fits, enough => by
    simp only [weightFields] at enough
    obtain ⟨n, rfl⟩ : ∃ m, n = m + 1 := ⟨n - 1, by omega⟩
    have read := prettyRead j (n := n) (depth + 1) fits.1 (by omega) (marginEnds depth ('\x7d' :: rest))
    have closed : dropBlanks ((margin depth).toList ++ '\x7d' :: rest) = '\x7d' :: rest := by
      simp [dropMargin, dropBlanks]
    simpa [prettyFields, joinedSingle, resavedFields] using (fieldRead name _ read).1 rest closed
  | (name, j) :: e :: fields, n, room, depth, rest, _, fits, enough => by
    simp only [weightFields] at enough
    obtain ⟨n, rfl⟩ : ∃ m, n = m + 1 := ⟨n - 1, by omega⟩
    have later := fieldsRead (e :: fields) (n := n) depth rest (by simp) fits.2
      (by simp only [weightFields]; omega)
    rw [← fieldsMargin n room (depth + 1)] at later
    have read := prettyRead j (n := n) (depth + 1) fits.1 (by omega) (commaEnds
      ((margin (depth + 1)).toList ++ (joined depth (prettyFields (depth + 1) (e :: fields)) ++
        ((margin depth).toList ++ '\x7d' :: rest))))
    have whole := (fieldRead name _ read).2 _ _ _ (by simp [dropBlanks]) later
    simp only [prettyFields, resavedFields] at whole ⊢
    simpa [joinedCons] using whole

end

/-! The whole text -/

theorem atomSome {j : Json} {room : Nat} (fits : j.Fits room) : 1 ≤ j.atom.toList.length := by
  have binary : ∀ {f : Number.Format} (range : Number.PointRange) (x : Binary f),
      1 ≤ ((Binary.documentText range x).getD "null").toList.length := by
    intro f range x
    cases x with
    | finite s w =>
      have some := List.length_pos_iff.mpr (Binary.numeralWritten range w).some
      rw [Binary.documentNumeral]
      simp [Numeral.text]
      omega
    | _ => exact (by decide : 1 ≤ "null".toList.length)
  cases j with
  | bool b => cases b <;> decide
  | integer k =>
    rw [Fits] at fits
    obtain ⟨m, rfl⟩ := Int.eq_ofNat_of_zero_le fits.1
    change 1 ≤ (Nat.repr m).toList.length
    rw [Nat.repr, String.toList_ofList]
    exact List.length_pos_iff.mpr Nat.toDigits_ne_nil
  | double x => exact binary _ x
  | single x => exact binary _ x
  | string s => simp [atom, quoted]
  | array items => exact (by decide : 1 ≤ "[]".toList.length)
  | object fields => exact (by decide : 1 ≤ "\x7b\x7d".toList.length)
  | _ => decide

theorem marginSome (depth : Nat) : 1 ≤ (margin depth).toList.length := by simp [margin]

mutual

theorem weightText : (j : Json) → {room : Nat} → j.Fits room → (depth : Nat) →
    j.weight ≤ (prettyAt depth j).toList.length
  | .array (i :: items), room, fits, depth => by
    rw [Fits] at fits
    have inner := weightItemsText (i :: items) fits.2 depth
    have before := marginSome (depth + 1)
    have after := marginSome depth
    simp only [weight, prettyAt, blockText, List.length_append]
    omega
  | .object (e :: fields), room, fits, depth => by
    rw [Fits] at fits
    have inner := weightFieldsText (e :: fields) fits.2 depth
    have before := marginSome (depth + 1)
    have after := marginSome depth
    simp only [weight, prettyAt, blockText, List.length_append]
    omega
  | .array [], room, fits, depth | .object [], room, fits, depth | .null, room, fits, depth
  | .bool _, room, fits, depth | .integer _, room, fits, depth | .double _, room, fits, depth
  | .single _, room, fits, depth | .string _, room, fits, depth | .unreadable, room, fits, depth =>
    atomSome fits

theorem weightItemsText : (items : List Json) → {room : Nat} → AllFit room items → (depth : Nat) →
    weightItems items ≤ (joined depth (prettyItems (depth + 1) items)).length + 1
  | [], _, _, _ => by simp [weightItems]
  | [j], room, fits, depth => by
    have first := weightText j fits.1 (depth + 1)
    simp only [weightItems, prettyItems, joinedSingle]
    omega
  | j :: i :: items, room, fits, depth => by
    have first := weightText j fits.1 (depth + 1)
    have later := weightItemsText (i :: items) fits.2 depth
    simp only [weightItems, prettyItems, joinedCons, List.length_append, List.length_cons] at later ⊢
    omega

theorem weightFieldsText : (fields : List (String × Json)) → {room : Nat} → FieldsFit room fields →
    (depth : Nat) →
    weightFields fields ≤ (joined depth (prettyFields (depth + 1) fields)).length + 1
  | [], _, _, _ => by simp [weightFields]
  | [(name, j)], room, fits, depth => by
    have first := weightText j fits.1 (depth + 1)
    simp only [weightFields, prettyFields, joinedSingle, String.toList_append, List.length_append]
    omega
  | (name, j) :: e :: fields, room, fits, depth => by
    have first := weightText j fits.1 (depth + 1)
    have later := weightFieldsText (e :: fields) fits.2 depth
    simp only [weightFields, prettyFields, joinedCons, List.length_append, List.length_cons,
      String.toList_append] at later ⊢
    omega

end

theorem readPretty {j : Json} (fits : j.Fits nestingLimit) : read j.pretty = some j.resaved := by
  have enough : j.weight ≤ j.pretty.toList.length + 1 := Nat.le_succ_of_le (weightText j fits 0)
  have ends : Ends [] := fun _ impossible => by cases impossible
  have value := prettyRead j 0 fits enough ends
  rw [List.append_nil] at value
  simp only [read, pretty] at value ⊢
  rw [value]
  rfl

end ShaderNet.Json

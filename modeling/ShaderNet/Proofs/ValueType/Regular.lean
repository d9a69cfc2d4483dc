import Mathlib.Data.List.Forall2
import ShaderNet.Document.Type
import ShaderNet.Proofs.ValueType.Alternatives
import ShaderNet.Proofs.ValueType.Names

/-! Types that names and documents can give: whatever is counted in them goes from one to four. -/
namespace ShaderNet.ValueType

def isRegular (t : ValueType) : Bool := t.size?.all fun n => 1 ≤ n && n ≤ 4

theorem shapedRegular {base : Scalar} {size : Nat} (range : 1 ≤ size ∧ size ≤ 4) :
    (shaped base size).isRegular = true := by
  unfold shaped
  split
  · rfl
  · simpa [isRegular, size?] using range

theorem componentRegular {t c : ValueType} (found : t.component? = some c) : c.isRegular = true := by
  cases t <;> cases found <;> rfl

/-! Lists of alternatives -/

theorem appendHead (t : ValueType) (flat ts : List ValueType) :
    ∃ rest, ts.foldl append (t :: flat) = t :: rest := by
  induction ts generalizing flat with
  | nil => exact ⟨flat, rfl⟩
  | cons u ts ih =>
    rw [List.foldl_cons, append]
    split
    · exact ih flat
    · exact ih (flat ++ [u])

/- The first of several types stays the first. -/
theorem oneOfFirst {t : ValueType} {ts : List ValueType} (plain : ∀ u ∈ t :: ts, u.isVariant = false) :
    (oneOf (t :: ts)).first = t := by
  obtain ⟨rest, listed⟩ := appendHead t [] ts
  have flat : ((t :: ts).flatMap alternatives).foldl append [] = t :: rest := by
    rw [alternativesEach plain]
    exact listed
  unfold oneOf
  rw [flat]
  cases rest with
  | nil =>
    unfold first
    rw [alternativesSelf (plain t List.mem_cons_self)]
    rfl
  | cons u rest => rfl

theorem oneOfSingle {t : ValueType} (plain : t.isVariant = false) : oneOf [t] = t := by
  simp [oneOf, alternativesSelf plain, append]

def Flat (t : ValueType) : Prop := ∀ u ∈ t.alternatives, u.isVariant = false ∧ u.isRegular = true

theorem flatRegular {t : ValueType} (flat : t.Flat) : t.isRegular = true := by
  cases plain : t.isVariant with
  | true => cases t <;> first | rfl | cases plain
  | false => exact (flat t (by rw [alternativesSelf plain]; exact List.mem_singleton.mpr rfl)).2

theorem plainFlat {t : ValueType} (plain : t.isVariant = false) (regular : t.isRegular = true) :
    t.Flat := by
  intro u member
  rw [alternativesSelf plain] at member
  cases List.mem_singleton.mp member
  exact ⟨plain, regular⟩

theorem oneOfFlat {ts : List ValueType} (each : ∀ t ∈ ts, t.Flat) : (oneOf ts).Flat := by
  have listed : ∀ u ∈ joined ts, u.isVariant = false ∧ u.isRegular = true := by
    intro u member
    obtain ⟨t, inside, member⟩ := memJoined.mp member
    exact each t inside u member
  rcases oneOfCases ts with ⟨_, same⟩ | ⟨single, one, same⟩ | ⟨_, same⟩ <;> rw [same]
  · exact plainFlat rfl rfl
  · obtain ⟨plain, regular⟩ := listed single (one ▸ List.mem_singleton.mpr rfl)
    exact plainFlat plain regular
  · exact listed

structure Admits (P : ValueType → Prop) : Prop where
  scalar : ∀ base, P (.scalar base)
  vector : ∀ base size, 2 ≤ size ∧ size ≤ 4 → P (.vector base size)
  matrix : ∀ base rows cols, base = .float ∨ base = .double → 2 ≤ rows ∧ rows ≤ 4 →
    2 ≤ cols ∧ cols ≤ 4 → P (.matrix base rows cols)
  oneOf : ∀ ts, (∀ t ∈ ts, P t) → P (oneOf ts)
  sampler : P .sampler
  broken : P .broken

theorem flatAdmits : Admits Flat where
  scalar _ := plainFlat rfl rfl
  vector _ _ range := plainFlat rfl (by simp [isRegular, size?, range.2, Nat.le_of_succ_le range.1])
  matrix _ _ _ _ _ _ := plainFlat rfl rfl
  oneOf _ := oneOfFlat
  sampler := plainFlat rfl rfl
  broken := plainFlat rfl rfl

variable {P : ValueType → Prop}

theorem shapedAdmitted (admits : Admits P) {base : Scalar} {size : Nat} (range : 1 ≤ size ∧ size ≤ 4) :
    P (shaped base size) := by
  unfold shaped
  split
  · exact admits.scalar base
  · rename_i several
    exact admits.vector base size ⟨by omega, range.2⟩

/-! Names -/

theorem ofNameAdmitted (admits : Admits P) {s : String} {t : ValueType} (found : ofName? s = some t) :
    P t := by
  cases ofNameSpelled found with
  | scalar base => exact admits.scalar base
  | vector base written => exact admits.vector base _ (paddedRange written)
  | square real written => exact admits.matrix _ _ _ real (paddedRange written) (paddedRange written)
  | matrix real columns lines => exact admits.matrix _ _ _ real (paddedRange lines) (paddedRange columns)
  | sampler => exact admits.sampler

theorem ofNameRegular {s : String} {t : ValueType} (found : ofName? s = some t) :
    t.isRegular = true := flatRegular (ofNameAdmitted flatAdmits found)

/-! Documents -/

theorem decodeDimensionRange {j : Json} {n : Nat} (read : decodeDimension j = some n) :
    2 ≤ n ∧ n ≤ 4 := by
  simpa using (Option.filter_eq_some_iff.mp read).2

theorem uniqueGivenMember {fields : List (String × Given)} {name : String} {g : Given}
    (found : uniqueGiven fields name = some (some g)) : g ∈ fields.map Prod.snd := by
  unfold uniqueGiven at found
  split at found
  · cases found
  · rename_i p one
    cases found
    have member : p ∈ fields.filter fun p => p.1 = name := one ▸ List.mem_singleton.mpr rfl
    exact List.mem_map_of_mem (List.mem_filter.mp member).1
  · cases found

theorem mapMPaired {α β : Type} {f : α → Option β} {l : List α} {results : List β}
    (read : l.mapM f = some results) : List.Forall₂ (fun a b => f a = some b) l results := by
  induction l generalizing results with
  | nil =>
    cases read
    exact .nil
  | cons a rest ih =>
    simp only [List.mapM_cons, Option.bind_eq_bind, Option.bind_eq_some_iff] at read
    obtain ⟨first, here, others, later, same⟩ := read
    cases same
    exact .cons here (ih later)

theorem pairedMember {α β : Type} {r : α → β → Prop} {l : List α} {results : List β}
    (paired : List.Forall₂ r l results) {b : β} (member : b ∈ results) : ∃ a ∈ l, r a b := by
  induction paired with
  | nil => cases member
  | cons here _ ih =>
    rcases List.mem_cons.mp member with rfl | member
    · exact ⟨_, List.mem_cons_self, here⟩
    · obtain ⟨a, inside, pair⟩ := ih member
      exact ⟨a, List.mem_cons_of_mem _ inside, pair⟩

def ListsAll (P : ValueType → Prop) (given : List Given) : Prop :=
  ∀ g ∈ given, ∀ ts, g.2 = some ts → ∀ u ∈ ts, P u

theorem ofGivenAdmitted (admits : Admits P) {kind : Kind} {given : List (Option Given)}
    {t : ValueType} (lists : ∀ g, some g ∈ given → ∀ ts, g.2 = some ts → ∀ u ∈ ts, P u)
    (made : ofGiven kind given = some t) : P t := by
  unfold ofGiven at made
  split at made
  · obtain ⟨base, _, rfl⟩ := Option.map_eq_some_iff.mp made
    exact admits.scalar base
  · simp only [Option.bind_eq_bind, Option.bind_eq_some_iff] at made
    obtain ⟨base, _, size, dimension, same⟩ := made
    cases same
    exact admits.vector base size (decodeDimensionRange dimension)
  · simp only [Option.bind_eq_bind, Option.bind_eq_some_iff] at made
    obtain ⟨base, held, rows, first, cols, second, same⟩ := made
    cases same
    have real : base = .float ∨ base = .double := by
      simpa using (Option.filter_eq_some_iff.mp held).2
    exact admits.matrix base rows cols real (decodeDimensionRange first) (decodeDimensionRange second)
  · rename_i alternatives
    obtain ⟨ts, listed, rfl⟩ := Option.map_eq_some_iff.mp made
    exact admits.oneOf ts (lists alternatives (List.mem_singleton.mpr rfl) ts listed)
  · cases made
    exact admits.sampler
  · cases made
    exact admits.broken
  · cases made

theorem ofItemsAdmitted (admits : Admits P) {nested : Bool} {given : List Given} {t : ValueType}
    (lists : ListsAll P given) (made : ofItems nested given = some t) : P t := by
  cases given with
  | nil => cases made
  | cons tag rest =>
    simp only [ofItems, Option.bind_eq_bind, Option.bind_eq_some_iff] at made
    obtain ⟨kind, _, made⟩ := made
    refine ofGivenAdmitted admits (fun g member => ?_) made
    obtain ⟨g', inside, same⟩ := List.mem_map.mp member
    cases same
    exact lists g (List.mem_cons_of_mem _ inside)

theorem ofFieldsAdmitted (admits : Admits P) {nested : Bool} {fields : List (String × Given)}
    {t : ValueType} (lists : ListsAll P (fields.map Prod.snd))
    (made : ofFields nested fields = some t) : P t := by
  simp only [ofFields, Option.bind_eq_bind, Option.bind_eq_some_iff] at made
  obtain ⟨_, _, tag, _, kind, _, given, read, made⟩ := made
  refine ofGivenAdmitted admits (fun g member => ?_) made
  obtain ⟨name, _, found⟩ := pairedMember (mapMPaired read) member
  exact lists g (uniqueGivenMember found)

mutual

theorem decodeWithinAdmitted (admits : Admits P) {nested : Bool} {t : ValueType} :
    (j : Json) → decodeWithin nested j = some t → P t
  | .object fields, read =>
    ofFieldsAdmitted admits (givenFieldsAdmitted admits fields) (by simpa only [decodeWithin] using read)
  | .array items, read =>
    ofItemsAdmitted admits (givenItemsAdmitted admits items) (by simpa only [decodeWithin] using read)
  | .null, read | .bool _, read | .integer _, read | .double _, read | .single _, read
  | .string _, read | .unreadable, read => by simp [decodeWithin] at read

theorem decodeListAdmitted (admits : Admits P) {ts : List ValueType} :
    (j : Json) → decodeList j = some ts → ∀ t ∈ ts, P t
  | .array items, read => decodeAllAdmitted admits items (by simpa only [decodeList] using read)
  | .object _, read | .null, read | .bool _, read | .integer _, read | .double _, read | .single _, read
  | .string _, read | .unreadable, read => by simp [decodeList] at read

theorem decodeAllAdmitted (admits : Admits P) {ts : List ValueType} :
    (items : List Json) → decodeAll items = some ts → ∀ t ∈ ts, P t
  | [], read => by
    simp only [decodeAll] at read
    cases read
    exact List.forall_mem_nil _
  | j :: rest, read => by
    simp only [decodeAll, Option.bind_eq_bind, Option.bind_eq_some_iff] at read
    obtain ⟨t, here, others, later, same⟩ := read
    cases same
    exact List.forall_mem_cons.mpr
      ⟨decodeWithinAdmitted admits j here, decodeAllAdmitted admits rest later⟩

theorem givenFieldsAdmitted (admits : Admits P) :
    (fields : List (String × Json)) → ListsAll P ((givenFields fields).map Prod.snd)
  | [] => by
    simp only [givenFields]
    exact List.forall_mem_nil _
  | (name, j) :: rest => by
    simp only [givenFields]
    exact List.forall_mem_cons.mpr
      ⟨fun ts => decodeListAdmitted admits j, givenFieldsAdmitted admits rest⟩

theorem givenItemsAdmitted (admits : Admits P) : (items : List Json) → ListsAll P (givenItems items)
  | [] => by
    simp only [givenItems]
    exact List.forall_mem_nil _
  | j :: rest => by
    simp only [givenItems]
    exact List.forall_mem_cons.mpr
      ⟨fun ts => decodeListAdmitted admits j, givenItemsAdmitted admits rest⟩

end

theorem decodeAdmitted (admits : Admits P) {j : Json} {t : ValueType} (read : decode j = some t) :
    P t := by
  unfold decode at read
  split at read
  · exact decodeWithinAdmitted admits j read
  · cases read

theorem decodeRegular {j : Json} {t : ValueType} (read : decode j = some t) : t.isRegular = true :=
  flatRegular (decodeAdmitted flatAdmits read)

end ShaderNet.ValueType

import Mathlib.Data.List.Nodup
import Mathlib.Data.List.Perm.Subperm
import Mathlib.Order.Bounds.Defs
import ShaderNet.Net.Reach
import ShaderNet.Proofs.Table

/-! Unique identifiers. A net cannot have all of more numbers than it has nodes, so the search ends with the
least positive number that is free, as long as the net is small enough for the count to stay positive. -/
namespace ShaderNet.Net

variable {n : Net} {base : String}

theorem naturalTextInj {j k : Nat} (same : toString j = toString k) : j = k := by
  rw [Nat.toString_eq_ofList_toDigits, Nat.toString_eq_ofList_toDigits, String.ofList_inj] at same
  simpa only [Nat.ofDigitChars_ten_toDigits] using congrArg (Nat.ofDigitChars 10 · 0) same

theorem naturalTextUnsigned (j k : Nat) : toString j ≠ "-" ++ toString k := by
  intro same
  have texts := congrArg String.toList same
  rw [Nat.toString_eq_ofList_toDigits, String.toList_ofList, String.toList_append] at texts
  have sign : '-' ∈ Nat.toDigits 10 j := texts ▸ List.mem_cons_self
  cases Nat.isDigit_of_mem_toDigits (by decide) (by decide) sign

theorem integerTextInj {i j : Int} (same : toString i = toString j) : i = j := by
  cases i with
  | ofNat i =>
    cases j with
    | ofNat j => exact congrArg Int.ofNat (naturalTextInj same)
    | negSucc j => exact absurd same (naturalTextUnsigned i (j + 1))
  | negSucc i =>
    cases j with
    | ofNat j => exact absurd same.symm (naturalTextUnsigned j (i + 1))
    | negSucc j =>
      have next : i + 1 = j + 1 := naturalTextInj ((String.append_right_inj "-").mp same)
      exact congrArg Int.negSucc (Nat.succ.inj next)

theorem numberedInj {i j : Int} (same : numbered base i = numbered base j) : i = j :=
  integerTextInj ((String.append_right_inj _).mp same)

theorem candidateInj {j k : Nat} (low : 1 ≤ j) (low' : 1 ≤ k) (same : candidate j = candidate k) :
    j = k := by
  simp only [candidate, Int.bmod_def] at same
  omega

theorem candidatePositive {k : Nat} (small : k < 2147483648) : candidate k = k := by
  simp only [candidate, Int.bmod_def]
  omega

theorem plainNumber {k : Nat} (small : k < 2147483648) :
    numbered base (candidate k) = base ++ "_" ++ toString k := by
  rw [candidatePositive small]
  rfl

/- The search stops at a free number, or when its budget is spent. -/
theorem uniqueFromCases (n : Net) (base : String) (budget k : Nat) :
    ∃ j, k ≤ j ∧ n.uniqueFrom base budget k = numbered base (candidate j) ∧
      (∀ i, k ≤ i → i < j → n.contains (numbered base (candidate i)) = true) ∧
      (n.contains (numbered base (candidate j)) = false ∨ j = k + budget) := by
  induction budget generalizing k with
  | zero => exact ⟨k, Nat.le_refl k, rfl, fun i low high => by omega, .inr rfl⟩
  | succ budget ih =>
    rw [uniqueFrom]
    cases taken : n.contains (numbered base (candidate k)) with
    | false => exact ⟨k, Nat.le_refl k, rfl, fun i low high => by omega, .inl taken⟩
    | true =>
      obtain ⟨j, above, found, before, last⟩ := ih (k + 1)
      refine ⟨j, by omega, found, fun i low high => ?_, last.imp_right fun e => by omega⟩
      rcases Nat.eq_or_lt_of_le low with rfl | later
      · exact taken
      · exact before i later high

theorem someFree (n : Net) (base : String) :
    ∃ i, 1 ≤ i ∧ i ≤ n.nodes.size + 1 ∧ n.contains (numbered base (candidate i)) = false := by
  by_contra none
  have all : ∀ i, 1 ≤ i → i ≤ n.nodes.size + 1 →
      n.contains (numbered base (candidate i)) = true := by
    intro i low high
    by_contra free
    exact none ⟨i, low, high, Bool.not_eq_true _ ▸ free⟩
  let tried := (List.range' 1 (n.nodes.size + 1)).map fun i => numbered base (candidate i)
  have nodup : tried.Nodup := by
    refine List.Nodup.map_on (fun i here j there same => ?_) List.nodup_range'
    rw [List.mem_range'_1] at here there
    exact candidateInj here.1 there.1 (numberedInj same)
  have within : tried ⊆ n.nodes.keys := by
    intro id member
    obtain ⟨i, range, rfl⟩ := List.mem_map.mp member
    rw [List.mem_range'_1] at range
    exact Table.memKeysContains.mpr (all i range.1 (by omega))
  have length := (nodup.subperm within).length_le
  rw [List.length_map, List.length_range', Table.keys, List.length_map] at length
  exact Nat.not_succ_le_self _ length

theorem uniqueIdLeast (n : Net) (base : String) :
    ∃ j, 1 ≤ j ∧ j ≤ n.nodes.size + 1 ∧ n.uniqueId base = numbered base (candidate j) ∧
      n.contains (numbered base (candidate j)) = false ∧
      ∀ i, 1 ≤ i → i < j → n.contains (numbered base (candidate i)) = true := by
  obtain ⟨j, above, found, before, last⟩ := uniqueFromCases n base n.nodes.size 1
  obtain ⟨i, low, high, free⟩ := someFree n base
  have reached : j ≤ i := by
    by_contra later
    rw [before i low (by omega)] at free
    cases free
  refine ⟨j, above, Nat.le_trans reached high, found, last.elim id fun spent => ?_, before⟩
  rwa [show j = i by omega]

theorem uniqueIdAbsent (n : Net) (base : String) : n.contains (n.uniqueId base) = false := by
  obtain ⟨j, _, _, found, free, _⟩ := uniqueIdLeast n base
  rw [found]
  exact free

/-! The search as it counts: in 32 bits, and without a budget -/

/-- Numbers are tried one after the other, from the given one on and as many as told, until one is
free. -/
inductive Searched (n : Net) (base : String) : (first : Int32) → (tried : Nat) → String → Prop
  | free {i} (free : n.contains (base ++ "_" ++ toString i) = false) :
      Searched n base i 1 (base ++ "_" ++ toString i)
  | taken {i tried id} (taken : n.contains (base ++ "_" ++ toString i) = true)
      (later : Searched n base (i + 1) tried id) : Searched n base i (tried + 1) id

theorem countedCandidate {k : Nat} (within : k ≤ 4294967296) :
    base ++ "_" ++ toString (Int32.ofNat k) = numbered base (candidate k) := by
  have value : (Int32.ofNat k).toInt = candidate k := by
    rw [Int32.toInt_ofNat', candidate, if_pos within]
  rw [numbered, ← value]
  rfl

theorem countedNext (k : Nat) : Int32.ofNat k + 1 = Int32.ofNat (k + 1) := (Int32.ofNat_add k 1).symm

/- Every number of 32 bits comes up once in a round. -/
theorem countedAll (i : Int32) : ∃ k, 1 ≤ k ∧ k ≤ 4294967296 ∧ i = Int32.ofNat k := by
  have low := i.le_toInt
  have high := i.toInt_lt
  refine ⟨if 0 < i.toInt then i.toInt.toNat else (i.toInt + 4294967296).toNat, ?_, ?_, ?_⟩
  · split <;> omega
  · split <;> omega
  · rw [← Int32.toInt_inj, Int32.toInt_ofNat', Int.bmod_def]
    split <;> simp only [Int32.size] <;> omega

theorem searchedUntil {j : Nat} (within : j ≤ 4294967296)
    (free : n.contains (numbered base (candidate j)) = false) (tried : Nat) {k : Nat}
    (last : k + tried = j)
    (before : ∀ i, k ≤ i → i < j → n.contains (numbered base (candidate i)) = true) :
    Searched n base (Int32.ofNat k) (tried + 1) (numbered base (candidate j)) := by
  induction tried generalizing k with
  | zero =>
    cases last
    rw [← countedCandidate within] at free ⊢
    exact .free free
  | succ tried ih =>
    have taken := before k (Nat.le_refl k) (by omega)
    rw [← countedCandidate (by omega)] at taken
    refine .taken taken ?_
    rw [countedNext]
    exact ih (by omega) fun i low high => before i (by omega) high

theorem searchedSome {first : Int32} {tried : Nat} {id : String}
    (search : Searched n base first tried id) : 1 ≤ tried := by
  cases search <;> omega

/- What a search has tried, in the order of its turns. -/
theorem searchedTurns {k tried : Nat} {id : String}
    (search : Searched n base (Int32.ofNat k) tried id) :
    ∃ j, k ≤ j ∧ k + tried = j + 1 ∧ id = base ++ "_" ++ toString (Int32.ofNat j) ∧
      n.contains id = false ∧
      ∀ i, k ≤ i → i < j → n.contains (base ++ "_" ++ toString (Int32.ofNat i)) = true := by
  induction tried generalizing k with
  | zero => cases search
  | succ tried ih =>
    cases search with
    | free free => exact ⟨k, Nat.le_refl k, rfl, rfl, free, fun i low high => by omega⟩
    | taken taken later =>
      rw [countedNext] at later
      obtain ⟨j, above, turns, named, free, before⟩ := ih later
      refine ⟨j, by omega, by omega, named, free, fun i low high => ?_⟩
      rcases Nat.eq_or_lt_of_le low with rfl | past
      · exact taken
      · exact before i past high

/- A search that ends does so within the first round, and there it is the search of the net. -/
theorem searchedUnique {tried : Nat} {id : String} (search : Searched n base 1 tried id) :
    tried ≤ 4294967296 ∧ id = n.uniqueId base ∧ tried ≤ n.nodes.size + 1 ∧
      n.contains (numbered base (candidate tried)) = false ∧ id = numbered base (candidate tried) ∧
      ∀ i, 1 ≤ i → i < tried → n.contains (numbered base (candidate i)) = true := by
  obtain ⟨j, above, turns, named, free, before⟩ := searchedTurns (k := 1) search
  obtain rfl : tried = j := by omega
  have round : tried ≤ 4294967296 := by
    by_contra beyond
    have again := before (tried - 4294967296) (by omega) (by omega)
    have same : Int32.ofNat (tried - 4294967296) = Int32.ofNat tried := by
      rw [← Int32.toInt_inj, Int32.toInt_ofNat', Int32.toInt_ofNat', Int.bmod_def, Int.bmod_def]
      simp only [Int32.size]
      omega
    rw [same, ← named, free] at again
    cases again
  have taken : ∀ i, 1 ≤ i → i < tried → n.contains (numbered base (candidate i)) = true := by
    intro i low high
    rw [← countedCandidate (by omega)]
    exact before i low high
  rw [countedCandidate round] at named
  rw [named] at free
  obtain ⟨least, low, high, found, unused, earlier⟩ := uniqueIdLeast n base
  obtain rfl : tried = least := by
    rcases Nat.lt_trichotomy tried least with less | same | more
    · cases free.symm.trans (earlier tried above less)
    · exact same
    · cases unused.symm.trans (taken least low more)
  exact ⟨round, named.trans found.symm, high, free, named, taken⟩

theorem searchedFirst {j : Nat} (positive : 1 ≤ j) (within : j ≤ 4294967296)
    (free : n.contains (numbered base (candidate j)) = false)
    (before : ∀ i, 1 ≤ i → i < j → n.contains (numbered base (candidate i)) = true) :
    Searched n base 1 j (numbered base (candidate j)) := by
  have ended := searchedUntil within free (j - 1) (k := 1) (by omega) before
  rwa [Nat.sub_add_cancel positive] at ended

theorem searchedNamed {tried : Nat} {id : String} (search : Searched n base 1 tried id) : id ≠ "" := by
  obtain ⟨_, _, _, _, numeral, _⟩ := searchedUnique search
  intro none
  rw [numeral, numbered] at none
  simpa using congrArg String.length none

/- Only a net with all the numbers of 32 bits keeps the search from ending. -/
theorem searchedIff (n : Net) (base : String) : (∃ tried id, Searched n base 1 tried id) ↔
    ∃ i : Int32, n.contains (base ++ "_" ++ toString i) = false := by
  constructor
  · rintro ⟨tried, id, search⟩
    obtain ⟨round, _, _, free, _, _⟩ := searchedUnique search
    rw [← countedCandidate round] at free
    exact ⟨_, free⟩
  · rintro ⟨i, unused⟩
    obtain ⟨k, positive, within, rfl⟩ := countedAll i
    rw [countedCandidate within] at unused
    obtain ⟨least, low, _, _, free, before⟩ := uniqueIdLeast n base
    have early : least ≤ k := by
      by_contra later
      cases unused.symm.trans (before k positive (by omega))
    exact ⟨_, _, searchedFirst low (by omega) free before⟩

theorem uniqueIdPositive (few : n.nodes.size < 2147483646) :
    ∃ k, IsLeast {i : Nat | 1 ≤ i ∧ n.contains (base ++ "_" ++ toString i) = false} k ∧
      k < 2147483647 ∧ n.uniqueId base = base ++ "_" ++ toString k ∧
      Searched n base 1 k (n.uniqueId base) := by
  obtain ⟨least, low, high, found, free, before⟩ := uniqueIdLeast n base
  have spelled : numbered base (candidate least) = base ++ "_" ++ toString least :=
    plainNumber (by omega)
  refine ⟨least, ⟨⟨low, spelled ▸ free⟩, fun i member => ?_⟩, by omega, found.trans spelled,
    found ▸ searchedFirst low (by omega) free before⟩
  by_contra earlier
  have taken := before i member.1 (Nat.lt_of_not_le earlier)
  rw [plainNumber (by omega)] at taken
  exact Bool.false_ne_true (member.2.symm.trans taken)

/- Past the largest number the count goes on with the negative ones. -/
theorem searchedBelow
    (full : ∀ k : Nat, 1 ≤ k → k ≤ 2147483647 → n.contains (base ++ "_" ++ toString k) = true)
    {tried : Nat} {id : String} (search : Searched n base 1 tried id) :
    2147483647 < tried ∧ ∃ i : Int32, i ≤ 0 ∧ id = base ++ "_" ++ toString i := by
  obtain ⟨round, _, _, free, numeral, _⟩ := searchedUnique search
  have late : 2147483647 < tried := by
    by_contra early
    have taken := full tried (searchedSome search) (by omega)
    rw [plainNumber (by omega)] at free
    exact Bool.false_ne_true (free.symm.trans taken)
  refine ⟨late, Int32.ofNat tried, ?_, numeral.trans (countedCandidate round).symm⟩
  rw [Int32.le_iff_toInt_le, Int32.toInt_ofNat', Int.bmod_def]
  simp only [Int32.size, Int32.toInt_zero]
  omega

def crowd : Net :=
  ["a_1", "a_3", "a_-1"].foldl (fun n id => { n with nodes := n.nodes.insert id (.named id "a") }) empty

end ShaderNet.Net

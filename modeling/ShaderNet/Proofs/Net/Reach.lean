import Mathlib.Data.List.Perm.Subperm
import ShaderNet.Proofs.Net.Sound

/-! What an edit affects is closed under connections. Growing stops within its budget: each round that
finds something new finds the end of a connection, and there are no more ends than connections. -/
namespace ShaderNet.Net

theorem memSuccessors {n : Net} (indexed : Indexed n) {id next : String} :
    next ∈ n.successors id ↔ ∃ c ∈ n.connectionList, c.source.node = id ∧ c.target.node = next := by
  simp only [successors, List.mem_map, memOutgoing indexed, and_assoc]

theorem containsGrow {n : Net} {s : KeySet String} {id : String} :
    (n.grow s).contains id = true ↔
      s.contains id = true ∨ ∃ k, s.contains k = true ∧ id ∈ n.successors k := by
  rw [grow, KeySet.containsAddAll, List.mem_flatMap]
  simp only [Table.memKeysContains]
  exact Or.comm

def Feeds (n : Net) (source target : String) : Prop :=
  ∃ c ∈ n.connectionList, c.source.node = source ∧ c.target.node = target

def Closed (n : Net) (s : KeySet String) : Prop :=
  ∀ c ∈ n.connectionList, s.contains c.source.node = true → s.contains c.target.node = true

theorem sameSize {s t : KeySet String} (within : ∀ k, s.contains k = true → t.contains k = true)
    (size : t.size = s.size) {k : String} (member : t.contains k = true) : s.contains k = true := by
  have subset : s.keys ⊆ t.keys := fun k member =>
    Table.memKeysContains.mpr (within k (Table.memKeysContains.mp member))
  have perm := (List.subperm_of_subset s.keysNodup subset).perm_of_length_le
    (by simpa [Table.keys, Table.size] using Nat.le_of_eq size)
  exact Table.memKeysContains.mp (perm.mem_iff.mpr (Table.memKeysContains.mpr member))

def leaving (n : Net) (s : KeySet String) : Nat :=
  n.connectionList.countP fun c => !s.contains c.target.node

theorem countFewer {α : Type} {l : List α} {p q : α → Bool}
    (less : ∀ a ∈ l, p a = true → q a = true) {a : α} (member : a ∈ l) (was : q a = true)
    (now : p a = false) : l.countP p < l.countP q := by
  obtain ⟨front, back, rfl⟩ := List.append_of_mem member
  have front' : front.countP p ≤ front.countP q :=
    List.countP_mono_left fun b inside => less b (by simp [inside])
  have back' : back.countP p ≤ back.countP q :=
    List.countP_mono_left fun b inside => less b (by simp [inside])
  simp only [List.countP_append, List.countP_cons, was, now, Bool.false_eq_true, if_false, if_true]
  omega

theorem leavingFewer {n : Net} {s t : KeySet String}
    (within : ∀ k, s.contains k = true → t.contains k = true) {c : Connection}
    (member : c ∈ n.connectionList) (outside : s.contains c.target.node = false)
    (inside : t.contains c.target.node = true) : n.leaving t < n.leaving s := by
  refine countFewer (fun d _ out => ?_) member (by simp [outside]) (by simp [inside])
  cases inS : s.contains d.target.node
  · rfl
  · rw [within _ inS] at out
    cases out

theorem growWithinClosed {n : Net} (indexed : Indexed n) {budget : Nat} {s : KeySet String}
    (enough : n.leaving s ≤ budget) :
    (∀ k, s.contains k = true → (n.growWithin budget s).contains k = true) ∧
      n.Closed (n.growWithin budget s) := by
  induction budget generalizing s with
  | zero =>
    refine ⟨fun _ member => member, fun c member _ => ?_⟩
    have none := List.countP_eq_zero.mp (Nat.le_zero.mp enough) c member
    simpa [growWithin] using none
  | succ budget ih =>
    have within : ∀ k, s.contains k = true → (n.grow s).contains k = true :=
      fun k member => containsGrow.mpr (.inl member)
    have next : ∀ c ∈ n.connectionList, s.contains c.source.node = true →
        (n.grow s).contains c.target.node = true := fun c member start =>
      containsGrow.mpr (.inr ⟨_, start, (memSuccessors indexed).mpr ⟨c, member, rfl, rfl⟩⟩)
    rw [growWithin]
    split
    · rename_i size
      exact ⟨fun _ member => member, fun c member start => sameSize within size (next c member start)⟩
    · rename_i size
      have more : ∃ k, (n.grow s).contains k = true ∧ s.contains k = false := by
        refine Classical.byContradiction fun none => size ?_
        have same : n.grow s = s := KeySet.ext fun k => ⟨fun new => ?_, within k⟩
        · rw [same]
        · refine Classical.byContradiction fun out => none ⟨k, new, ?_⟩
          simpa using out
      obtain ⟨k, new, out⟩ := more
      rcases containsGrow.mp new with old | ⟨id, _, step⟩
      · rw [old] at out
        cases out
      · obtain ⟨c, member, _, rfl⟩ := (memSuccessors indexed).mp step
        have fewer := leavingFewer within member out new
        obtain ⟨kept, closed⟩ := ih (by omega : n.leaving (n.grow s) ≤ budget)
        exact ⟨fun k start => kept k (within k start), closed⟩

theorem downstreamBounded (n : Net) (s : KeySet String) : n.leaving s ≤ n.connections.size := by
  refine Nat.le_trans List.countP_le_length ?_
  simp [connectionList, Table.values, Table.size]

theorem downstreamSeed {n : Net} (indexed : Indexed n) {seeds : List String} {id : String}
    (seed : id ∈ seeds) : (n.downstreamClosure seeds).contains id = true :=
  (growWithinClosed indexed (downstreamBounded n _)).1 id (KeySet.containsOfList.mpr seed)

theorem unaffected {n : Net} (indexed : Indexed n) {seeds : List String} {id : String}
    (other : (n.downstreamClosure seeds).contains id = false) : id ∉ seeds := by
  intro seed
  rw [downstreamSeed indexed seed] at other
  cases other

theorem downstreamClosed {n : Net} (indexed : Indexed n) (seeds : List String) :
    n.Closed (n.downstreamClosure seeds) := (growWithinClosed indexed (downstreamBounded n _)).2

/- Nothing else is affected: whatever holds of the seeds and passes along connections holds of it all. -/
theorem downstreamWithin {n : Net} (indexed : Indexed n) {inside : String → Prop}
    (closed : ∀ c ∈ n.connectionList, inside c.source.node → inside c.target.node)
    {seeds : List String} (start : ∀ id ∈ seeds, inside id) {id : String}
    (affected : (n.downstreamClosure seeds).contains id = true) : inside id := by
  have grown : ∀ (budget : Nat) (s : KeySet String), (∀ k, s.contains k = true → inside k) →
      ∀ k, (n.growWithin budget s).contains k = true → inside k := by
    intro budget
    induction budget with
    | zero => exact fun _ within => within
    | succ budget ih =>
      intro s within
      rw [growWithin]
      split
      · exact within
      · refine ih _ fun k new => ?_
        rcases containsGrow.mp new with old | ⟨from', begun, step⟩
        · exact within k old
        · obtain ⟨c, member, rfl, rfl⟩ := (memSuccessors indexed).mp step
          exact closed c member (within _ begun)
  exact grown _ _ (fun k seed => start k (KeySet.containsOfList.mp seed)) id affected

end ShaderNet.Net

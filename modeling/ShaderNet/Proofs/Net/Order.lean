import Mathlib.Logic.Relation
import ShaderNet.Proofs.Net.Reach

/-! The order in which a walk against the connections leaves nodes. A node is left after all that it is
computed from, unless it is computed from itself. -/
namespace ShaderNet.Net
open Relation

/-- A set of nodes that no connection enters from outside. -/
def FedWithin (n : Net) (inside : String → Prop) : Prop :=
  ∀ c ∈ n.connectionList, inside c.target.node → inside c.source.node

theorem FedWithin.feeder {n : Net} {inside : String → Prop} (within : n.FedWithin inside)
    (indexed : Indexed n) {input : Socket} {c : Connection} (here : inside input.node)
    (fed : n.feeder? input = some c) : inside c.source.node := by
  obtain ⟨member, rfl⟩ := (feederIff indexed).mp fed
  exact within c member here

theorem upstreamFedWithin (n : Net) (id : String) : n.FedWithin (ReflTransGen n.Feeds · id) :=
  fun c member path => .head ⟨c, member, rfl, rfl⟩ path

theorem feedsIncoming {n : Net} (indexed : Indexed n) {source target : String} :
    n.Feeds source target ↔ ∃ c ∈ n.incoming target, c.source.node = source := by
  simp only [Feeds, memIncoming indexed, and_assoc]
  exact exists_congr fun c => and_congr_right fun _ => and_comm

def Walk.Open (w : Walk) (id : String) : Prop := w.entered.contains id = true ∧ id ∉ w.left

structure Walk.Fair (n : Net) (w : Walk) : Prop where
  entered : ∀ k ∈ w.left, w.entered.contains k = true
  nodup : w.left.Nodup
  closed : ∀ k ∈ w.left, ∀ u, n.Feeds u k → w.entered.contains u = true
  order : ∀ front v back, w.left = front ++ v :: back →
    ∀ u, TransGen n.Feeds u v → ¬ TransGen n.Feeds v v → u ∈ front

structure Walk.Visited (n : Net) (id : String) (w after : Walk) : Prop where
  fair : after.Fair n
  kept : ∀ k, w.entered.contains k = true → after.entered.contains k = true
  opened : ∀ k, after.Open k ↔ w.Open k
  left : ∃ more, after.left = w.left ++ more ∧ ∀ k ∈ more, ReflTransGen n.Feeds k id

variable {n : Net}

theorem visitedRefl {w : Walk} (fair : w.Fair n) (id : String) : w.Visited n id w :=
  ⟨fair, fun _ member => member, fun _ => Iff.rfl, [], by simp, fun _ member => nomatch member⟩

theorem Walk.Visited.trans {id : String} {u v w : Walk} (first : u.Visited n id v)
    (second : v.Visited n id w) : u.Visited n id w := by
  obtain ⟨more, same, reach⟩ := first.left
  obtain ⟨rest, same', reach'⟩ := second.left
  refine ⟨second.fair, fun k member => second.kept k (first.kept k member),
    fun k => (second.opened k).trans (first.opened k), more ++ rest, ?_, fun k member => ?_⟩
  · rw [same', same, List.append_assoc]
  · exact (List.mem_append.mp member).elim (reach k) (reach' k)

/- Back along the connections from a node that was left, nothing is met but nodes that were left
until one is met that is still open. -/
theorem leftOrOpen {w : Walk} (fair : w.Fair n) {u v : String} (path : TransGen n.Feeds u v)
    (left : v ∈ w.left) :
    u ∈ w.left ∨ ∃ s, w.Open s ∧ TransGen n.Feeds s v := by
  induction path using TransGen.head_induction_on with
  | @single a step =>
    by_cases here : a ∈ w.left
    · exact .inl here
    · exact .inr ⟨a, ⟨fair.closed v left a step, here⟩, .single step⟩
  | @head a c step path ih =>
    rcases ih with inside | found
    · by_cases here : a ∈ w.left
      · exact .inl here
      · exact .inr ⟨a, ⟨fair.closed c inside a step, here⟩, .head step path⟩
    · exact .inr found

/- Leaving a node whose sources have all been entered. What is open is computed from it. -/
theorem leaveFair {w : Walk} {id : String} (fair : w.Fair n) (member : w.Open id)
    (sources : ∀ u, n.Feeds u id → w.entered.contains u = true)
    (downstream : ∀ s, w.Open s → ReflTransGen n.Feeds id s) :
    Walk.Fair n ⟨w.entered, w.left ++ [id]⟩ := by
  refine ⟨fun k inside => ?_, ?_, fun k inside => ?_, fun front v back split u path free => ?_⟩
  · rcases List.mem_append.mp inside with inside | inside
    · exact fair.entered k inside
    · exact List.mem_singleton.mp inside ▸ member.1
  · exact List.nodup_append.mpr ⟨fair.nodup, List.nodup_singleton id, fun a left b last same => by
      cases List.mem_singleton.mp last
      exact member.2 (same ▸ left)⟩
  · rcases List.mem_append.mp inside with inside | inside
    · exact fair.closed k inside
    · exact List.mem_singleton.mp inside ▸ sources
  · rcases List.eq_nil_or_concat back with rfl | ⟨rest, last, rfl⟩
    · obtain ⟨rfl, same⟩ := List.append_inj' split rfl
      cases same
      -- the node itself: were a node on the way to it open, it would be computed from itself
      have closes : ∀ s, w.Open s → ¬ TransGen n.Feeds s id := fun s opened back =>
        free (.trans_right (downstream s opened) back)
      obtain ⟨x, start, step⟩ := TransGen.tail'_iff.mp path
      have near : x ∈ w.left := Classical.byContradiction fun out =>
        closes x ⟨sources x step, out⟩ (.single step)
      rcases reflTransGen_iff_eq_or_transGen.mp start with rfl | start
      · exact near
      · refine (leftOrOpen fair start near).resolve_right fun ⟨s, opened, back⟩ => ?_
        exact closes s opened (back.tail step)
    · have before : w.left = front ++ v :: rest := by
        have parts := split
        rw [List.concat_eq_append, ← List.cons_append, ← List.append_assoc] at parts
        exact (List.append_inj' parts rfl).1
      exact fair.order front v rest before u path free

def unvisited (n : Net) (s : KeySet String) : Nat :=
  n.connectionList.countP fun c => !s.contains c.source.node

theorem unvisitedBounded (n : Net) (s : KeySet String) : n.unvisited s ≤ n.connections.size := by
  refine Nat.le_trans List.countP_le_length ?_
  simp [connectionList, Table.values, Table.size]

theorem unvisitedFewer {s t : KeySet String}
    (within : ∀ k, s.contains k = true → t.contains k = true) {c : Connection}
    (member : c ∈ n.connectionList) (outside : s.contains c.source.node = false)
    (inside : t.contains c.source.node = true) : n.unvisited t < n.unvisited s := by
  refine countFewer (fun d _ out => ?_) member (by simp [outside]) (by simp [inside])
  cases inS : s.contains d.source.node
  · rfl
  · rw [within _ inS] at out
    cases out

theorem unvisitedAdd {s t : KeySet String}
    (within : ∀ k, s.contains k = true → t.contains k = true) {c : Connection}
    (member : c ∈ n.connectionList) (outside : s.contains c.source.node = false) :
    n.unvisited (t.add c.source.node) < n.unvisited s :=
  unvisitedFewer (fun k inside => KeySet.containsAdd.mpr (.inr (within k inside))) member outside
    (KeySet.containsAdd.mpr (.inl rfl))

theorem Walk.Visited.onward {child id : String} {w after : Walk}
    (visited : w.Visited n child after) (feeds : n.Feeds child id) : w.Visited n id after := by
  obtain ⟨more, same, reach⟩ := visited.left
  exact ⟨visited.fair, visited.kept, visited.opened, more, same,
    fun k member => (reach k member).tail feeds⟩

theorem enterFair {w : Walk} (fair : w.Fair n) (id : String) :
    Walk.Fair n ⟨w.entered.add id, w.left⟩ := by
  have more : ∀ k, w.entered.contains k = true → (w.entered.add id).contains k = true :=
    fun k member => KeySet.containsAdd.mpr (.inr member)
  exact ⟨fun k left => more k (fair.entered k left), fair.nodup,
    fun k left u feeds => more u (fair.closed k left u feeds), fair.order⟩

/-- Visits of some depth do what they should. What is open is computed from the node they start at,
and the depth is not used up as long as there are connections from nodes not yet entered. -/
def Visits (n : Net) (depth : Nat) : Prop :=
  ∀ id (w : Walk), w.Fair n → (∀ s, w.Open s → TransGen n.Feeds id s) →
    (w.entered.contains id = true ∨ n.unvisited (w.entered.add id) < depth) →
    w.Visited n id (n.visit depth id w) ∧ (n.visit depth id w).entered.contains id = true

/- The sources of a node one after another, while the node itself is open. -/
theorem visitSources (indexed : Indexed n) {depth : Nat} (visits : n.Visits depth) {id : String}
    {start w : Walk} (downstream : ∀ s, start.Open s → ReflTransGen n.Feeds id s)
    (room : n.unvisited start.entered ≤ depth) {cs : List Connection}
    (listed : ∀ c ∈ cs, c ∈ n.incoming id) (visited : start.Visited n id w) :
    let after := cs.foldl (fun w c => n.visit depth c.source.node w) w
    start.Visited n id after ∧ (∀ k, w.entered.contains k = true → after.entered.contains k = true) ∧
      ∀ c ∈ cs, after.entered.contains c.source.node = true := by
  induction cs generalizing w with
  | nil => exact ⟨visited, fun _ known => known, fun _ member => nomatch member⟩
  | cons c rest ih =>
    have entering := listed c List.mem_cons_self
    have feeds : n.Feeds c.source.node id := (feedsIncoming indexed).mpr ⟨c, entering, rfl⟩
    have member : c ∈ n.connectionList := ((memIncoming indexed).mp entering).1
    have enough : w.entered.contains c.source.node = true ∨
        n.unvisited (w.entered.add c.source.node) < depth := by
      cases known : w.entered.contains c.source.node with
      | true => exact .inl rfl
      | false =>
        refine .inr (Nat.lt_of_lt_of_le (unvisitedAdd visited.kept member ?_) room)
        refine Bool.not_eq_true _ ▸ fun inside => ?_
        rw [visited.kept _ inside] at known
        cases known
    obtain ⟨once, reached⟩ := visits c.source.node w visited.fair
      (fun s opened => .head' feeds (downstream s ((visited.opened s).mp opened))) enough
    obtain ⟨all, kept, found⟩ := ih (fun d inside => listed d (List.mem_cons_of_mem _ inside))
      (visited.trans (once.onward feeds))
    refine ⟨all, fun k known => kept k (once.kept k known), fun d inside => ?_⟩
    rcases List.mem_cons.mp inside with rfl | inside
    · exact kept _ reached
    · exact found d inside

theorem enterOpen {w : Walk} (fair : w.Fair n) {id : String} (fresh : w.entered.contains id = false)
    (k : String) : Walk.Open ⟨w.entered.add id, w.left⟩ k ↔ w.Open k ∨ k = id := by
  have outside : id ∉ w.left := fun left => by
    rw [fair.entered id left] at fresh
    cases fresh
  simp only [Walk.Open, KeySet.containsAdd]
  constructor
  · rintro ⟨rfl | known, out⟩
    · exact .inr rfl
    · exact .inl ⟨known, out⟩
  · rintro (⟨known, out⟩ | rfl)
    · exact ⟨.inr known, out⟩
    · exact ⟨.inl rfl, outside⟩

theorem visitVisited (indexed : Indexed n) (depth : Nat) : n.Visits depth := by
  induction depth with
  | zero =>
    intro id w fair _ enough
    exact ⟨visitedRefl fair id, enough.resolve_right (Nat.not_lt_zero _)⟩
  | succ depth ih =>
    intro id w fair downstream enough
    unfold visit
    split
    · rename_i known
      exact ⟨visitedRefl fair id, known⟩
    · rename_i fresh
      have fresh : w.entered.contains id = false := by simpa using fresh
      have opened := enterOpen fair fresh
      have below : ∀ s, Walk.Open ⟨w.entered.add id, w.left⟩ s → ReflTransGen n.Feeds id s := by
        intro s here
        rcases (opened s).mp here with here | rfl
        · exact (downstream s here).to_reflTransGen
        · exact .refl
      have room : n.unvisited (w.entered.add id) ≤ depth := by
        rw [fresh] at enough
        simpa [Nat.lt_succ_iff] using enough
      obtain ⟨inner, _, sources⟩ := visitSources indexed ih below room (fun _ member => member)
        (visitedRefl (enterFair fair id) id)
      have member := (inner.opened id).mpr ((opened id).mpr (.inr rfl))
      obtain ⟨more, left, reach⟩ := inner.left
      refine ⟨⟨leaveFair inner.fair member (fun u feeds => ?_) fun s here => ?_, fun k known => ?_,
        fun k => ?_, more ++ [id], ?_, fun k inside => ?_⟩, member.1⟩
      · obtain ⟨c, entering, rfl⟩ := (feedsIncoming indexed).mp feeds
        exact sources c entering
      · exact below s ((inner.opened s).mp here)
      · exact inner.kept k (KeySet.containsAdd.mpr (.inr known))
      · have here := (inner.opened k).trans (opened k)
        have other : w.Open k → k ≠ id := fun known same => by
          rw [← same, known.1] at fresh
          cases fresh
        simp only [Walk.Open, List.mem_append, List.mem_singleton, not_or, ← and_assoc] at here other ⊢
        rw [here]
        exact ⟨fun ⟨before, different⟩ => before.resolve_right different,
          fun known => ⟨.inl known, other known⟩⟩
      · dsimp only at left ⊢
        rw [left, List.append_assoc]
      · rcases List.mem_append.mp inside with inside | inside
        · exact reach k inside
        · exact List.mem_singleton.mp inside ▸ .refl

/- A walk from nothing enters and leaves the same nodes. -/
theorem upstreamOrderVisited (indexed : Indexed n) (id : String) :
    ∃ entered : KeySet String, Walk.Fair n ⟨entered, n.upstreamOrder id⟩ ∧ entered.contains id = true ∧
      (∀ k, entered.contains k = true → k ∈ n.upstreamOrder id) ∧
      ∀ k ∈ n.upstreamOrder id, ReflTransGen n.Feeds k id := by
  have closed : ∀ s, ¬ Walk.Open ⟨∅, []⟩ s := fun s opened => nomatch opened.1
  have fair : Walk.Fair n ⟨∅, []⟩ := by
    refine ⟨fun _ left => ?_, List.nodup_nil, fun _ left => ?_, fun front v back split => ?_⟩
    · cases left
    · cases left
    · simp at split
  obtain ⟨visited, reached⟩ := visitVisited indexed _ id ⟨∅, []⟩ fair
    (fun s opened => absurd opened (closed s)) (.inr (Nat.lt_succ_of_le (unvisitedBounded n _)))
  obtain ⟨more, left, reach⟩ := visited.left
  refine ⟨_, visited.fair, reached, fun k known => ?_, fun k inside => reach k ?_⟩
  · exact Classical.byContradiction fun out => closed k ((visited.opened k).mp ⟨known, out⟩)
  · rw [List.nil_append] at left
    exact left ▸ inside

theorem upstreamOrderNodup (indexed : Indexed n) (id : String) : (n.upstreamOrder id).Nodup := by
  obtain ⟨_, fair, _⟩ := upstreamOrderVisited indexed id
  exact fair.nodup

theorem memUpstreamOrder (indexed : Indexed n) {id k : String} :
    k ∈ n.upstreamOrder id ↔ ReflTransGen n.Feeds k id := by
  obtain ⟨entered, fair, reached, all, reach⟩ := upstreamOrderVisited indexed id
  refine ⟨reach k, fun path => ?_⟩
  induction path using ReflTransGen.head_induction_on with
  | refl => exact all id reached
  | head step _ ih => exact all _ (fair.closed _ ih _ step)

theorem upstreamOrderBefore (indexed : Indexed n) {id u v : String} {front back : List String}
    (split : n.upstreamOrder id = front ++ v :: back) (path : TransGen n.Feeds u v)
    (free : ¬ TransGen n.Feeds v v) : u ∈ front := by
  obtain ⟨_, fair, _⟩ := upstreamOrderVisited indexed id
  exact fair.order front v back split u path free

end ShaderNet.Net

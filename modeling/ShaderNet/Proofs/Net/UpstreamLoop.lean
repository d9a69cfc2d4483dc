import ShaderNet.Proofs.Net.Edits
import ShaderNet.Proofs.Net.Order
import ShaderNet.Proofs.Net.Rank

/-! The walk against the connections as a loop over a stack. A node may be pushed by everything that it
feeds before it is entered for the first time. The loop ends for every net, with the nodes in the order
in which the recursion leaves them: sources before what they feed, as far as there are no cycles. -/
namespace ShaderNet.Net
open Relation

inductive Task where
  | enter (id : String)
  | leave (id : String)

structure Descent where
  stack : List Task
  walk : Walk

def pending (entered : KeySet String) (cs : List Connection) : List Task :=
  ((cs.map (·.source.node)).filter fun id => !entered.contains id).map .enter

def Descent.next (n : Net) : Descent → Option Descent
  | ⟨[], _⟩ => none
  | ⟨.leave id :: rest, w⟩ => some ⟨rest, w.entered, w.left ++ [id]⟩
  | ⟨.enter id :: rest, w⟩ =>
    if w.entered.contains id then some ⟨rest, w⟩
    else
      let entered := w.entered.add id
      some ⟨pending entered (n.incoming id) ++ .leave id :: rest, entered, w.left⟩

def Descent.Leads (n : Net) : Descent → Descent → Prop :=
  ReflTransGen fun d e => Descent.next n d = some e

variable {n : Net}

theorem visitKnown {id : String} {w : Walk} (known : w.entered.contains id = true) (depth : Nat) :
    n.visit depth id w = w := by
  cases depth with
  | zero => rfl
  | succ depth => rw [visit, if_pos known]

theorem visitKeeps (depth : Nat) (id : String) (w : Walk) {k : String}
    (known : w.entered.contains k = true) : (n.visit depth id w).entered.contains k = true := by
  induction depth generalizing id w with
  | zero => exact known
  | succ depth ih =>
    rw [visit]
    split
    · exact known
    · have start : (w.entered.add id).contains k = true := KeySet.containsAdd.mpr (.inr known)
      exact List.foldlRecOn (motive := fun w : Walk => w.entered.contains k = true) _ _ start
        fun w known c _ => ih c.source.node w known

def Loops (n : Net) (depth : Nat) : Prop :=
  ∀ id (w : Walk) rest, (w.entered.contains id = true ∨ n.unvisited (w.entered.add id) < depth) →
    Descent.Leads n ⟨.enter id :: rest, w⟩ ⟨rest, n.visit depth id w⟩

/- Sources one after another. Those that had been entered when the others were pushed are not on the
stack; those entered since then are taken from it without effect. -/
theorem pendingLeads (indexed : Indexed n) {depth : Nat} (loops : n.Loops depth) {id : String}
    {start : KeySet String} (room : n.unvisited start ≤ depth) {cs : List Connection}
    (listed : ∀ c ∈ cs, c ∈ n.incoming id) {w : Walk}
    (kept : ∀ k, start.contains k = true → w.entered.contains k = true) (rest : List Task) :
    Descent.Leads n ⟨pending start cs ++ rest, w⟩
      ⟨rest, cs.foldl (fun w c => n.visit depth c.source.node w) w⟩ := by
  induction cs generalizing w with
  | nil => exact .refl
  | cons c others ih =>
    have later := fun d member => listed d (List.mem_cons_of_mem _ member)
    rw [List.foldl_cons]
    cases known : start.contains c.source.node with
    | true =>
      have skipped : pending start (c :: others) = pending start others := by simp [pending, known]
      rw [skipped, visitKnown (kept _ known)]
      exact ih later kept
    | false =>
      have pushed : pending start (c :: others) = .enter c.source.node :: pending start others := by
        simp [pending, known]
      have member := ((memIncoming indexed).mp (listed c List.mem_cons_self)).1
      have enough := Nat.lt_of_lt_of_le (unvisitedAdd kept member known) room
      rw [pushed]
      exact (loops c.source.node w _ (.inr enough)).trans
        (ih later fun k known => visitKeeps depth c.source.node w (kept k known))

theorem visitLoops (indexed : Indexed n) (depth : Nat) : n.Loops depth := by
  induction depth with
  | zero =>
    intro id w rest enough
    have known := enough.resolve_right (Nat.not_lt_zero _)
    exact .single (by rw [Descent.next, if_pos known]; rfl)
  | succ depth ih =>
    intro id w rest enough
    cases known : w.entered.contains id with
    | true =>
      rw [visitKnown known]
      exact .single (by rw [Descent.next, if_pos known])
    | false =>
      have fresh : ¬ w.entered.contains id = true := by simp [known]
      have room : n.unvisited (w.entered.add id) ≤ depth :=
        Nat.lt_succ_iff.mp (enough.resolve_left fresh)
      rw [visit, if_neg fresh]
      refine .head (by rw [Descent.next, if_neg fresh]) ?_
      exact (pendingLeads indexed ih room (fun _ member => member) (fun _ known => known) _).tail rfl

theorem upstreamOrderLeads (indexed : Indexed n) (id : String) :
    ∃ last, Descent.Leads n ⟨[.enter id], ∅, []⟩ last ∧ last.next n = none ∧
      last.walk.left = n.upstreamOrder id := by
  have room := Nat.lt_succ_of_le (unvisitedBounded n ((∅ : KeySet String).add id))
  exact ⟨_, visitLoops indexed _ id ⟨∅, []⟩ [] (.inr room), rfl, rfl⟩

/-! The list that is left -/

theorem upstreamOrderLast (n : Net) (id : String) : (n.upstreamOrder id).getLast? = some id := by
  rw [upstreamOrder, visit, if_neg (by simp [Table.contains])]
  exact List.getLast?_concat

def FeedsAmong (n : Net) (nodes : List String) (source target : String) : Prop :=
  source ∈ nodes ∧ target ∈ nodes ∧ n.Feeds source target

/- A path that ends in an upstream order lies in it. -/
theorem upstreamAmong (indexed : Indexed n) {id u v : String} (path : TransGen n.Feeds u v)
    (inside : v ∈ n.upstreamOrder id) : TransGen (n.FeedsAmong (n.upstreamOrder id)) u v := by
  have source : ∀ {u v}, n.Feeds u v → v ∈ n.upstreamOrder id → u ∈ n.upstreamOrder id := fun step inside =>
    (memUpstreamOrder indexed).mpr (.head step ((memUpstreamOrder indexed).mp inside))
  induction path with
  | single step => exact .single ⟨source step inside, inside, step⟩
  | tail _ step ih => exact (ih (source step inside)).tail ⟨source step inside, inside, step⟩

theorem upstreamOrderPrecedes (indexed : Indexed n) {id u v : String} (feeds : n.Feeds u v)
    (inside : v ∈ n.upstreamOrder id) (free : ¬ TransGen n.Feeds v v) :
    (n.upstreamOrder id).idxOf u < (n.upstreamOrder id).idxOf v := by
  obtain ⟨front, back, split⟩ := List.append_of_mem inside
  have before : u ∈ front := upstreamOrderBefore indexed split (.single feeds) free
  have nodup := upstreamOrderNodup indexed id
  rw [split] at nodup ⊢
  have after : v ∉ front := fun member =>
    (List.nodup_append.mp nodup).2.2 v member v List.mem_cons_self rfl
  rw [List.idxOf_append_of_mem before, List.idxOf_append_of_notMem after]
  exact Nat.lt_of_lt_of_le (List.idxOf_lt_length_of_mem before) (Nat.le_add_right _ _)

theorem upstreamOrderTopological (edits : List Edit) (id : String) :
    let n := empty.run edits
    (∃ last, Descent.Leads n ⟨[.enter id], ∅, []⟩ last ∧ last.next n = none ∧
      last.walk.left = n.upstreamOrder id) ∧
    (n.upstreamOrder id).Nodup ∧ (∀ k, k ∈ n.upstreamOrder id ↔ ReflTransGen n.Feeds k id) ∧
    (n.upstreamOrder id).getLast? = some id ∧
    ((∀ k, ¬ TransGen (n.FeedsAmong (n.upstreamOrder id)) k k) → ∀ c ∈ n.connectionList,
      c.source.node ∈ n.upstreamOrder id → c.target.node ∈ n.upstreamOrder id →
        (n.upstreamOrder id).idxOf c.source.node < (n.upstreamOrder id).idxOf c.target.node) := by
  intro n
  have indexed : Indexed n := (runSound emptySound edits).toIndexed
  refine ⟨upstreamOrderLeads indexed id, upstreamOrderNodup indexed id,
    fun k => memUpstreamOrder indexed, upstreamOrderLast n id,
    fun acyclic c member _ inside => ?_⟩
  exact upstreamOrderPrecedes indexed ⟨c, member, rfl, rfl⟩ inside fun cycle =>
    acyclic _ (upstreamAmong indexed cycle inside)

def fork : List Edit := [
  .insertNode (.named "z" "float"), .insertNode (.named "y" "sin"), .insertNode (.named "x" "cos"),
  .insertNode (.named "sum" "add"), .insertNode (.named "w" "sin"),
  .insertConnection (.between ⟨"z", "out"⟩ ⟨"sum", "a"⟩),
  .insertConnection (.between ⟨"x", "out"⟩ ⟨"sum", "b"⟩),
  .insertConnection (.between ⟨"y", "out"⟩ ⟨"x", "x"⟩),
  .insertConnection (.between ⟨"z", "out"⟩ ⟨"y", "x"⟩),
  .insertConnection (.between ⟨"sum", "out"⟩ ⟨"w", "x"⟩)]

theorem upstreamOrderTopologicalFork :
    let n := empty.run fork
    n.upstreamOrder "sum" = ["z", "y", "x", "sum"] ∧
    (∀ k, ¬ TransGen (n.FeedsAmong (n.upstreamOrder "sum")) k k) ∧ ∀ c ∈ n.connectionList,
      c.source.node ∈ n.upstreamOrder "sum" → c.target.node ∈ n.upstreamOrder "sum" →
        (n.upstreamOrder "sum").idxOf c.source.node < (n.upstreamOrder "sum").idxOf c.target.node := by
  have facts : (empty.run fork).upstreamOrder "sum" = ["z", "y", "x", "sum"] ∧
      ∀ c ∈ (empty.run fork).connectionList,
        ["z", "y", "x", "sum", "w"].idxOf c.source.node <
          ["z", "y", "x", "sum", "w"].idxOf c.target.node := by
    decide +kernel
  obtain ⟨listed, ranked⟩ := facts
  have upwards : (empty.run fork).Ranked fun id => ["z", "y", "x", "sum", "w"].idxOf id := ranked
  have acyclic : ∀ k, ¬ TransGen ((empty.run fork).FeedsAmong ((empty.run fork).upstreamOrder "sum")) k k :=
    fun k cycle => upwards.acyclic k (TransGen.mono (fun _ _ step => step.2.2) k k cycle)
  exact ⟨listed, acyclic, (upstreamOrderTopological fork "sum").2.2.2.2 acyclic⟩

end ShaderNet.Net

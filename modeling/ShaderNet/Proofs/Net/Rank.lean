import Mathlib.Logic.Relation
import ShaderNet.Proofs.Net.Reach
import ShaderNet.Proofs.Net.Unambiguous

/-! Ranks. A net whose nodes can be ranked so that every connection leads upwards has no cycle, and a
connection from a node that its target does not affect leaves it so. -/
namespace ShaderNet.Net
open Relation (TransGen)

def Ranked (n : Net) (rank : String → Nat) : Prop :=
  ∀ c ∈ n.connectionList, rank c.source.node < rank c.target.node

variable {n after : Net} {rank : String → Nat}

theorem Ranked.acyclic (ranked : n.Ranked rank) (id : String) : ¬ TransGen n.Feeds id id := by
  have upwards : ∀ {a b}, TransGen n.Feeds a b → rank a < rank b := by
    intro a b path
    induction path with
    | single step =>
      obtain ⟨c, member, rfl, rfl⟩ := step
      exact ranked c member
    | tail _ step ih =>
      obtain ⟨c, member, rfl, rfl⟩ := step
      exact Nat.lt_trans ih (ranked c member)
  exact fun cycle => Nat.lt_irrefl _ (upwards cycle)

/- Only the ends of connections matter. -/
theorem Ranked.listed {used : List Connection}
    (ranked : ∀ c ∈ used, rank c.source.node < rank c.target.node)
    (listed : ∀ c ∈ after.connectionList, Listed used c) : after.Ranked rank := by
  intro c member
  obtain ⟨d, old, source, target⟩ := listed c member
  rw [← source, ← target]
  exact ranked d old

/- All that the target affects is lifted above the source. -/
theorem Ranked.lifted (indexed : Indexed n) (ranked : n.Ranked rank) {source target : Socket}
    (apart : (n.downstreamClosure [target.node]).contains source.node = false) :
    ∃ rank' : String → Nat, ∀ c ∈ Connection.between source target :: n.connectionList,
      rank' c.source.node < rank' c.target.node := by
  let lift := fun id => (n.downstreamClosure [target.node]).contains id
  refine ⟨fun id => if lift id then rank id + rank source.node + 1 else rank id, fun c member => ?_⟩
  have seed : lift target.node = true := downstreamSeed indexed (List.mem_singleton.mpr rfl)
  have below : lift source.node = false := apart
  rcases List.mem_cons.mp member with rfl | old
  · simp only [Connection.between, seed, below, if_true, Bool.false_eq_true, if_false]
    omega
  · have upwards := ranked c old
    have closed : lift c.source.node = true → lift c.target.node = true :=
      downstreamClosed indexed _ c old
    dsimp only
    split
    · rename_i low
      rw [if_pos (closed low)]
      omega
    · split <;> omega

end ShaderNet.Net

import Mathlib.Data.List.Basic
import ShaderNet.Net.Edit
import ShaderNet.Proofs.Table

/-! The nodes that a node is made from, as a walk against the connections lists them. -/
namespace ShaderNet.Net

/-! Types are noted on connections while a net is compiled, and no walk looks at them. -/

def Retyped (n m : Net) : Prop :=
  ∃ connections, m = { n with connections := connections } ∧ ∀ id,
    (connections.get? id).map Connection.source = (n.connections.get? id).map Connection.source

theorem retypedRefl (n : Net) : Retyped n n := ⟨n.connections, rfl, fun _ => rfl⟩

theorem Retyped.trans {n m k : Net} (first : Retyped n m) (second : Retyped m k) : Retyped n k := by
  obtain ⟨cs, rfl, same⟩ := first
  obtain ⟨ds, rfl, same'⟩ := second
  exact ⟨ds, rfl, fun id => (same' id).trans (same id)⟩

theorem setConnectionTypeRetyped (n : Net) (id : String) (type : ValueType) :
    Retyped n (n.setConnectionType id type).1 := by
  unfold setConnectionType
  split
  · rename_i c found
    split
    · exact retypedRefl n
    · refine ⟨_, rfl, fun k => ?_⟩
      rw [Table.getInsert]
      split
      · rename_i same
        rw [← same, found]
        rfl
      · rfl
  · exact retypedRefl n

section Retyped

variable {n m : Net} (retyped : Retyped n m)
include retyped

theorem retypedFeeder (input : Socket) :
    (m.feeder? input).map Connection.source = (n.feeder? input).map Connection.source := by
  obtain ⟨cs, rfl, same⟩ := retyped
  simp only [feeder?]
  cases n.feeding.get? input with
  | none => rfl
  | some id => exact same id

theorem retypedIncoming (id : String) :
    (m.incoming id).map Connection.source = (n.incoming id).map Connection.source := by
  have feeders := retypedFeeder retyped
  have touching : m.touching? id = n.touching? id := by
    obtain ⟨cs, rfl, _⟩ := retyped
    rfl
  rw [incoming, incoming, touching]
  cases n.touching? id with
  | none => rfl
  | some t =>
    simp only [List.map_filterMap]
    exact List.filterMap_congr fun name _ => feeders ⟨id, name⟩

theorem retypedVisit (depth : Nat) (id : String) (w : Walk) :
    m.visit depth id w = n.visit depth id w := by
  induction depth generalizing id w with
  | zero => rfl
  | succ depth ih =>
    have sources : ∀ (k : Net) (start : Walk),
        (k.incoming id).foldl (fun w c => n.visit depth c.source.node w) start =
          ((k.incoming id).map Connection.source).foldl (fun w s => n.visit depth s.node w) start :=
      fun k start => by rw [List.foldl_map]
    simp only [visit, ih, sources, retypedIncoming retyped]

theorem retypedUpstreamOrder (id : String) : m.upstreamOrder id = n.upstreamOrder id := by
  have visits := retypedVisit retyped
  obtain ⟨cs, rfl, same⟩ := retyped
  have keys : cs.keys = n.connections.keys :=
    Table.keysEq fun k => by simpa using congrArg Option.isSome (same k)
  have size : cs.size = n.connections.size := by
    simpa [Table.keys, Table.size] using congrArg List.length keys
  simp only [upstreamOrder, visits, size]

end Retyped
end ShaderNet.Net

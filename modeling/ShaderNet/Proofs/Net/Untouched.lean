import Mathlib.Logic.Relation
import ShaderNet.Proofs.Net.Plan
import ShaderNet.Proofs.Net.Traced
import ShaderNet.Proofs.Workspace.Covered

/-! Nodes that a load passes over. The nets on the way to a document mix connections of the net that was
there with those of the document. Still, where a node and all upstream of it are the same in both, nothing
else leads to them, so nothing that changes elsewhere is told of there. -/
namespace ShaderNet
open Relation (ReflTransGen)

theorem Node.sameContentSymm {a b : Node} (same : a.sameContent b = true) :
    b.sameContent a = true := by
  simp only [sameContent, Bool.and_eq_true, decide_eq_true_eq] at same ⊢
  refine ⟨same.1.symm, Table.agreesIff.mpr fun name => ?_⟩
  rcases Table.related same.2 name with ⟨left, right⟩ | ⟨p, q, left, right, same⟩
  · rw [left, right]
    exact .none
  · rw [left, right]
    exact .some (Parameter.sameSymm same)

namespace Net

variable {d : Document} {kept : String → Prop} {n after : Net} {changes : Changes}

/-- The nodes of a set have the content that a document gives them, and all that feeds them comes from
within the set, along connections of the document. -/
structure Conforms (d : Document) (kept : String → Prop) (n : Net) : Prop extends Sound n where
  content : ∀ id a, kept id → n.nodes.get? id = some a →
    ∀ b ∈ d.nodes, b.id = id → a.sameContent b = true
  listed : ∀ c ∈ n.connectionList, kept c.target.node → Listed d.connections c
  within : ∀ c ∈ n.connectionList, kept c.target.node → kept c.source.node

structure Passed (d : Document) (kept : String → Prop) (after : Net) (invalidated : KeySet String) : Prop
    extends Conforms d kept after where
  untold : ∀ id, kept id → invalidated.contains id = false

section Conforms

variable (conforms : n.Conforms d kept)
include conforms

theorem Conforms.silent {invalidated : KeySet String} (none : invalidated = ∅) : Passed d kept n invalidated :=
  ⟨conforms, fun _ _ => none ▸ rfl⟩

/- What lies outside of the set affects nothing in it. -/
theorem Conforms.affecting {seeds : List String} (outside : ∀ id ∈ seeds, ¬ kept id) :
    Passed d kept n (n.downstreamClosure seeds) := by
  refine ⟨conforms, fun id inside => Bool.not_eq_true _ ▸ fun affected => ?_⟩
  have closed : ∀ c ∈ n.connectionList, ¬ kept c.source.node → ¬ kept c.target.node :=
    fun c member outside inside => outside (conforms.within c member inside)
  exact @downstreamWithin n conforms.toIndexed (fun id => ¬ kept id) closed seeds outside id affected
    inside

theorem Conforms.fewer (sound : after.Sound)
    (nodes : ∀ id a, after.nodes.get? id = some a → n.nodes.get? id = some a)
    (links : ∀ c ∈ after.connectionList, c ∈ n.connectionList) : after.Conforms d kept :=
  ⟨sound, fun id a inside found => conforms.content id a inside (nodes id a found),
    fun c member => conforms.listed c (links c member), fun c member => conforms.within c (links c member)⟩

theorem removeConnectionPassed {id : String}
    (loose : ∀ c ∈ n.connectionList, c.id = id → ¬ kept c.target.node) :
    (∀ c ∈ (n.removeConnection id).1.connectionList, c ∈ n.connectionList) ∧
      Passed d kept (n.removeConnection id).1 (n.removeConnection id).2.invalidated := by
  have sound := removeConnectionSound conforms.toSound id
  cases found : n.connections.get? id with
  | none =>
    rw [removeConnectionAbsent found]
    exact ⟨fun _ member => member, conforms.silent rfl⟩
  | some c =>
    rw [removeConnectionFound conforms.toIndexed found] at sound ⊢
    have member : c ∈ n.connectionList := Table.memValues.mpr ⟨id, found⟩
    have fewer : ∀ link ∈ (n.unlinked c).connectionList, link ∈ n.connectionList :=
      fun link left => ((memUnlinked conforms.toIndexed member).mp left).1
    have outside := loose c member (conforms.connectionKeys id c found)
    have rest : (n.unlinked c).Conforms d kept := conforms.fewer sound (fun _ _ found => found) fewer
    exact ⟨fewer, rest.affecting (List.forall_mem_singleton.mpr outside)⟩

/- Every connection at a node outside of the set ends outside. -/
theorem touchingPassed {id : String} (outside : ¬ kept id) :
    Passed d kept (n.removeConnections ((n.incoming id ++ n.outgoing id).map Connection.id)).1
      (n.removeConnections ((n.incoming id ++ n.outgoing id).map Connection.id)).2.invalidated := by
  have touching : ∀ c ∈ n.connectionList, c.id ∈ (n.incoming id ++ n.outgoing id).map Connection.id →
      ¬ kept c.target.node := by
    intro c member listed inside
    rcases (touchingIds conforms.toIndexed member).mp listed with source | target
    · exact outside (source ▸ conforms.within c member inside)
    · exact outside (target ▸ inside)
  refine (removeConnectionsInduct (motive := fun net told =>
    (∀ c ∈ net.connectionList, c ∈ n.connectionList) ∧ Passed d kept net told.invalidated)
    ⟨fun _ member => member, conforms.silent rfl⟩ fun k listed net told before => ?_).2
  obtain ⟨fewer, passed⟩ := removeConnectionPassed before.2.toConforms
    fun c member same => touching c (before.1 c member) (same ▸ listed)
  refine ⟨fun c member => before.1 c (fewer c member), passed.toConforms, fun j inside => ?_⟩
  exact Changes.invalidatedAppendFalse.mpr ⟨before.2.untold j inside, passed.untold j inside⟩

theorem removeNodePassed {id : String} (outside : ¬ kept id)
    (ok : n.removeNode id = .ok (after, changes)) : Passed d kept after changes.invalidated := by
  have sound := removeNodeSound conforms.toSound ok
  have cleared := touchingPassed conforms outside
  have affected := conforms.affecting (List.forall_mem_singleton.mpr outside)
  cases (removeNodeIff.mp ok).2
  refine ⟨cleared.fewer sound (fun k a found => ?_) fun _ member => member, fun k inside => ?_⟩
  · rw [without, Table.getErase] at found
    split at found
    · cases found
    · exact found
  · exact Changes.invalidatedAppendFalse.mpr ⟨Changes.invalidatedAppendFalse.mpr
      ⟨affected.untold k inside, cleared.untold k inside⟩, rfl⟩

theorem insertNodePassed {node : Node} (outside : ¬ kept node.id)
    (ok : n.insertNode node = .ok (after, changes)) : Passed d kept after changes.invalidated := by
  have sound := insertNodeSound conforms.toSound ok
  cases (insertNodeIff.mp ok).2
  have others : ∀ id, kept id → (n.inserted node).nodes.get? id = n.nodes.get? id := by
    intro id inside
    have other : node.id ≠ id := fun same => outside (same ▸ inside)
    exact (Table.getInsert ..).trans (if_neg other)
  refine ⟨⟨sound, fun id a inside found => ?_, conforms.listed, conforms.within⟩, fun id inside => ?_⟩
  · exact conforms.content id a inside (others id inside ▸ found)
  · refine Bool.not_eq_true _ ▸ fun told => outside ?_
    rw [← List.mem_singleton.mp (KeySet.containsOfList.mp told)]
    exact inside

theorem insertConnectionPassed {c : Connection} (outside : ¬ kept c.target.node)
    (ok : n.insertConnection c = .ok (after, changes)) : Passed d kept after changes.invalidated := by
  have sound := insertConnectionSound conforms.toSound ok
  obtain ⟨⟨_, _, absent, _⟩, e⟩ := insertConnectionIff.mp ok
  cases e
  have old : ∀ link ∈ (n.linked c).connectionList, kept link.target.node → link ∈ n.connectionList := by
    intro link member inside
    rcases List.mem_cons.mp ((linkedPerm absent).mem_iff.mp member) with rfl | member
    · exact absurd inside outside
    · exact member
  have linked : (n.linked c).Conforms d kept :=
    ⟨sound, conforms.content,
      fun link member inside => conforms.listed link (old link member inside) inside,
      fun link member inside => conforms.within link (old link member inside) inside⟩
  exact linked.affecting (List.forall_mem_singleton.mpr outside)

/- A node of the set is patched to what it is already, but for its place. -/
theorem patchNodePassed (distinct : (d.nodes.map Node.id).Nodup) {node : Node}
    (member : node ∈ d.nodes) (ok : n.patchNode node = .ok (after, changes)) :
    Passed d kept after changes.invalidated := by
  have sound := patchNodeSound conforms.toSound ok
  obtain ⟨old, found, ⟨rfl, rfl, _⟩ | ⟨rfl, rfl, _⟩⟩ := patchNodeCases ok
  · exact conforms.silent rfl
  · have same : kept node.id → old.sameContent node = true :=
      fun inside => conforms.content _ old inside (nodeFound.mp found) node member rfl
    have patched : (n.setNode node).Conforms d kept := by
      refine ⟨sound, fun id a inside there b listed named => ?_, conforms.listed, conforms.within⟩
      rw [setNode, Table.getInsert] at there
      split at there
      · rename_i here
        cases there
        have twin : b = node := List.inj_on_of_nodup_map distinct listed member (named.trans here.symm)
        have content := same (here ▸ inside)
        rw [twin]
        exact Node.sameContentTrans (Node.sameContentSymm content) content
      · exact conforms.content id a inside there b listed named
    dsimp only
    split
    · exact patched.silent rfl
    · rename_i differs
      exact patched.affecting (List.forall_mem_singleton.mpr fun inside => differs (same inside))

theorem namersOutside {id : String}
    (unnamed : ∀ b ∈ d.nodes, kept b.id → b.type = "custom_uniform" →
      (b.parameters.get? "uniform").bind Parameter.text? ≠ some id)
    (there : ∀ k, kept k → k ∈ d.nodes.map Node.id) :
    ∀ k ∈ Workspace.namers n "custom_uniform" "uniform" id, ¬ kept k := by
  intro k named inside
  obtain ⟨a, listed, rfl⟩ := List.mem_map.mp named
  obtain ⟨present, names⟩ := List.mem_filter.mp listed
  simp only [Bool.and_eq_true, decide_eq_true_eq] at names
  obtain ⟨b, member, same⟩ := List.mem_map.mp (there a.id inside)
  have found := (memNodeList conforms.toSound).mp present
  have content := conforms.content a.id a inside found b member same
  have becomes : a.Becomes (fun _ => True) b := .inr ⟨content, trivial⟩
  exact unnamed b member (same ▸ inside) (becomes.type.trans names.1)
    ((becomes.text "uniform").trans names.2)

end Conforms
end Net
end ShaderNet

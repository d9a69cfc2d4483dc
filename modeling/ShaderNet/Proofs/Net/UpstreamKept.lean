import Mathlib.Logic.Relation
import ShaderNet.Proofs.Net.UpstreamOrder
import ShaderNet.Proofs.Net.Unambiguous

/-! Paths that edits leave alone. Whatever leads to a node that an edit does not tell of is not told of
either, and still leads there. -/
namespace ShaderNet.Net
open Relation

def KeepsUpstream (n after : Net) (invalidated : KeySet String) : Prop :=
  ∀ u v, n.Feeds u v → invalidated.contains v = false → invalidated.contains u = false ∧ after.Feeds u v

variable {n after : Net} {invalidated : KeySet String}

theorem keepsUpstreamClosed (closed : after.Closed invalidated)
    (kept : ∀ c ∈ n.connectionList, invalidated.contains c.target.node = false →
      c ∈ after.connectionList) : KeepsUpstream n after invalidated := by
  rintro u v ⟨c, member, rfl, rfl⟩ safe
  have still := kept c member safe
  refine ⟨Bool.not_eq_true _ ▸ fun affected => ?_, c, still, rfl, rfl⟩
  rw [closed c still affected] at safe
  cases safe

theorem KeepsUpstream.append {m k : Net} {c d : Changes} (first : KeepsUpstream n m c.invalidated)
    (second : KeepsUpstream m k d.invalidated) : KeepsUpstream n k (c ++ d).invalidated := by
  intro u v feeds safe
  obtain ⟨left, right⟩ := Changes.invalidatedAppendFalse.mp safe
  obtain ⟨outside, feeds⟩ := first u v feeds left
  obtain ⟨outside', feeds⟩ := second u v feeds right
  exact ⟨Changes.invalidatedAppendFalse.mpr ⟨outside, outside'⟩, feeds⟩

theorem KeepsUpstream.path (upstream : KeepsUpstream n after invalidated) {u v : String}
    (path : TransGen n.Feeds u v) (safe : invalidated.contains v = false) :
    invalidated.contains u = false ∧ TransGen after.Feeds u v := by
  induction path using TransGen.head_induction_on with
  | single step =>
    obtain ⟨outside, step⟩ := upstream _ v step safe
    exact ⟨outside, .single step⟩
  | head step _ ih =>
    obtain ⟨outside, step⟩ := upstream _ _ step ih.1
    exact ⟨outside, .head step ih.2⟩

structure Charted (used : List Connection) (n : Net) : Prop extends Sound n where
  listed : ∀ c ∈ n.connectionList, Listed used c

structure UpstreamKept (used : List Connection) (n after : Net) (changes : Changes) : Prop where
  charted : Charted used after
  upstream : KeepsUpstream n after changes.invalidated

theorem closedEmpty (n : Net) : n.Closed ∅ := fun _ _ impossible => nomatch impossible

section Edits

variable {used : List Connection} {changes : Changes}

theorem UpstreamKept.append {m k : Net} {c d : Changes} (first : UpstreamKept used n m c)
    (second : UpstreamKept used m k d) : UpstreamKept used n k (c ++ d) :=
  ⟨second.charted, first.upstream.append second.upstream⟩

/- Edits that leave the connections alone. -/
theorem upstreamKeptSame (charted : Charted used n) (sound : Sound after)
    (same : after.connectionList = n.connectionList) (closed : after.Closed changes.invalidated) :
    UpstreamKept used n after changes := by
  refine ⟨⟨sound, fun c member => charted.listed c (same ▸ member)⟩, keepsUpstreamClosed closed ?_⟩
  exact fun c member _ => same ▸ member

theorem upstreamKeptNothing (charted : Charted used n) {changes : Changes} (untold : changes.invalidated = ∅) :
    UpstreamKept used n n changes :=
  upstreamKeptSame charted charted.toSound rfl (untold ▸ closedEmpty n)

theorem insertNodeUpstreamKept (charted : Charted used n) {node : Node}
    (ok : n.insertNode node = .ok (after, changes)) : UpstreamKept used n after changes := by
  have sound := insertNodeSound charted.toSound ok
  obtain ⟨fresh, e⟩ := insertNodeIff.mp ok
  cases e
  refine upstreamKeptSame charted sound rfl fun c member new => ?_
  have same : c.source.node = node.id := by simpa using KeySet.containsOfList.mp new
  rw [← same, (charted.endsExist c member).1] at fresh
  cases fresh

theorem setNodeUpstreamKept (charted : Charted used n) {node : Node}
    (present : n.contains node.id = true)
    (invalidated : changes.invalidated = ∅ ∨
      changes.invalidated = (n.setNode node).downstreamClosure [node.id]) :
    UpstreamKept used n (n.setNode node) changes := by
  have sound := setNodeSound charted.toSound present
  refine upstreamKeptSame charted sound rfl ?_
  rcases invalidated with untold | told
  · exact untold ▸ closedEmpty n
  · rw [told]
    exact downstreamClosed sound.toIndexed _

theorem setParameterUpstreamKept (charted : Charted used n) {id name : String} {value : Parameter}
    (ok : n.setParameter id name value = .ok (after, changes)) :
    UpstreamKept used n after changes := by
  obtain ⟨node, found, ⟨rfl, rfl, _⟩ | ⟨rfl, rfl, _⟩⟩ := setParameterCases ok
  · exact upstreamKeptNothing charted rfl
  · obtain ⟨rfl, present⟩ := nodePresent charted.toSound found
    exact setNodeUpstreamKept charted present (.inr rfl)

theorem moveNodeUpstreamKept (charted : Charted used n) {id : String} {dx dy : Number.Double}
    (ok : n.moveNode id dx dy = .ok (after, changes)) : UpstreamKept used n after changes := by
  obtain ⟨node, found, rfl, rfl⟩ := moveNodeCases ok
  obtain ⟨rfl, present⟩ := nodePresent charted.toSound found
  exact setNodeUpstreamKept charted present (.inl rfl)

theorem patchNodeUpstreamKept (charted : Charted used n) {node : Node}
    (ok : n.patchNode node = .ok (after, changes)) : UpstreamKept used n after changes := by
  obtain ⟨old, found, ⟨rfl, rfl, _⟩ | ⟨rfl, rfl, _⟩⟩ := patchNodeCases ok
  · exact upstreamKeptNothing charted rfl
  · refine setNodeUpstreamKept charted (nodePresent charted.toSound found).2 ?_
    dsimp only
    split
    · exact .inl rfl
    · exact .inr rfl

theorem removeConnectionUpstreamKept (charted : Charted used n) (id : String) :
    UpstreamKept used n (n.removeConnection id).1 (n.removeConnection id).2 := by
  have sound := removeConnectionSound charted.toSound id
  cases found : n.connections.get? id with
  | none =>
    rw [removeConnectionAbsent found]
    exact upstreamKeptNothing charted rfl
  | some c =>
    rw [removeConnectionFound charted.toIndexed found] at sound ⊢
    have member : c ∈ n.connectionList := Table.memValues.mpr ⟨id, found⟩
    have fewer : ∀ d, d ∈ (n.unlinked c).connectionList ↔ d ∈ n.connectionList ∧ d ≠ c :=
      fun _ => memUnlinked charted.toIndexed member
    refine ⟨⟨sound, fun d kept => charted.listed d ((fewer d).mp kept).1⟩,
      keepsUpstreamClosed (downstreamClosed sound.toIndexed _) fun d kept safe => (fewer d).mpr ⟨kept, ?_⟩⟩
    intro same
    exact unaffected sound.toIndexed safe (List.mem_singleton.mpr (same ▸ rfl))

theorem insertConnectionUpstreamKept (charted : Charted used n) {c : Connection} (listed : Listed used c)
    (ok : n.insertConnection c = .ok (after, changes)) : UpstreamKept used n after changes := by
  have sound := insertConnectionSound charted.toSound ok
  obtain ⟨⟨_, _, absent, _⟩, e⟩ := insertConnectionIff.mp ok
  cases e
  have perm := linkedPerm absent
  refine ⟨⟨sound, fun d member => ?_⟩,
    keepsUpstreamClosed (downstreamClosed sound.toIndexed _) fun d member _ => ?_⟩
  · rcases List.mem_cons.mp (perm.mem_iff.mp member) with rfl | member
    · exact listed
    · exact charted.listed d member
  · exact perm.mem_iff.mpr (List.mem_cons_of_mem c member)

theorem removeConnectionsUpstreamKept (charted : Charted used n) (ids : List String) :
    UpstreamKept used n (n.removeConnections ids).1 (n.removeConnections ids).2 :=
  removeConnectionsInduct (motive := UpstreamKept used n) (upstreamKeptNothing charted rfl)
    fun id _ _ _ before => before.append (removeConnectionUpstreamKept before.charted id)

/- All that the node feeds is told of before its connections go. -/
theorem removeNodeUpstreamKept (charted : Charted used n) {id : String}
    (ok : n.removeNode id = .ok (after, changes)) : UpstreamKept used n after changes := by
  cases (removeNodeIff.mp ok).2
  have told : UpstreamKept used n n { Changes.empty with invalidated := n.downstreamClosure [id] } :=
    upstreamKeptSame charted charted.toSound rfl (downstreamClosed charted.toIndexed _)
  have cleared := told.append (removeConnectionsUpstreamKept charted
    ((n.incoming id ++ n.outgoing id).map Connection.id))
  exact cleared.append (upstreamKeptSame cleared.charted (withoutSound charted.toSound id) rfl
    (closedEmpty _))

def Quiet (n : Net) (r : Net × Changes) : Prop :=
  r.1.connectionList = n.connectionList ∧ r.2.invalidated = ∅

theorem setUniformQuiet (n : Net) (u : Uniform) : n.Quiet (n.setUniform u) := by
  unfold setUniform
  split <;> exact ⟨rfl, rfl⟩

theorem removeUniformQuiet (n : Net) (id : String) : n.Quiet (n.removeUniform id) := by
  unfold removeUniform
  split <;> exact ⟨rfl, rfl⟩

theorem addIncludeQuiet (n : Net) (path : String) (source : Option String) :
    n.Quiet (n.addInclude path source) := by
  unfold addInclude
  split <;> exact ⟨rfl, rfl⟩

theorem removeIncludeQuiet (n : Net) (path : String) : n.Quiet (n.removeInclude path) := by
  unfold removeInclude
  split <;> exact ⟨rfl, rfl⟩

theorem quietUpstreamKept (charted : Charted used n) {r : Net × Changes} (sound : Sound r.1)
    (quiet : n.Quiet r) : UpstreamKept used n r.1 r.2 :=
  upstreamKeptSame charted sound quiet.1 (quiet.2 ▸ closedEmpty r.1)

/- Readers of what a quiet edit has changed are told of if there was anything to change. -/
theorem quietTold (charted : Charted used n) {r : Net × Changes} (sound : Sound r.1)
    (quiet : n.Quiet r) (readers : List String) : UpstreamKept used n r.1
      (if r.2.isEmpty then r.2 else { r.2 with invalidated := r.1.downstreamClosure readers }) := by
  split
  · exact quietUpstreamKept charted sound quiet
  · exact upstreamKeptSame charted sound quiet.1 (downstreamClosed sound.toIndexed readers)

end Edits

/-! Types noted on connections -/

theorem Retyped.symm {m : Net} (retyped : Retyped n m) : Retyped m n := by
  obtain ⟨cs, rfl, same⟩ := retyped
  exact ⟨n.connections, rfl, fun id => (same id).symm⟩

section Retyped

variable {m : Net} (retyped : Retyped n m) (left : Indexed n) (right : Indexed m)
include retyped left right

theorem retypedMember {c : Connection} (member : c ∈ n.connectionList) :
    ∃ d ∈ m.connectionList, d.source = c.source ∧ d.target = c.target := by
  have feeder := retypedFeeder retyped c.target
  rw [(feederIff left).mpr ⟨member, rfl⟩] at feeder
  obtain ⟨d, fed, source⟩ := Option.map_eq_some_iff.mp feeder
  obtain ⟨member, target⟩ := (feederIff right).mp fed
  exact ⟨d, member, source, target⟩

theorem retypedFeeds {u v : String} (feeds : n.Feeds u v) : m.Feeds u v := by
  obtain ⟨c, member, rfl, rfl⟩ := feeds
  obtain ⟨d, member, source, target⟩ := retypedMember retyped left right member
  exact ⟨d, member, congrArg Socket.node source, congrArg Socket.node target⟩

theorem retypedListed {used : List Connection} (listed : ∀ c ∈ n.connectionList, Listed used c) :
    ∀ c ∈ m.connectionList, Listed used c := by
  intro c member
  obtain ⟨d, member, source, target⟩ := retypedMember retyped.symm right left member
  obtain ⟨e, inside, source', target'⟩ := listed d member
  exact ⟨e, inside, source'.trans source, target'.trans target⟩

end Retyped
end ShaderNet.Net

import ShaderNet.Proofs.Changes
import ShaderNet.Proofs.Evaluate.Dependence

/-! Every edit of a net tells of the nodes whose results it may have changed: all others are made to
what they were made to before. -/
namespace ShaderNet.Scene
open Number (Double)

def Stable (old new : Scene) (invalidated : KeySet String) : Prop :=
  ∀ id c, invalidated.contains id = false → old.evaluate [] id = .ok c → new.evaluate [] id = .ok c

theorem stableRefl (scene : Scene) (invalidated : KeySet String) : Stable scene scene invalidated :=
  fun _ _ _ ok => ok

theorem stableAppend {old mid new : Scene} {c d : Changes} (first : Stable old mid c.invalidated)
    (second : Stable mid new d.invalidated) : Stable old new (c ++ d).invalidated := by
  intro id result fresh ok
  obtain ⟨left, right⟩ := Changes.invalidatedAppendFalse.mp fresh
  exact second id result right (first id result left ok)

theorem stableMore {old new : Scene} {s t : KeySet String} (stable : Stable old new s)
    (more : ∀ id, s.contains id = true → t.contains id = true) : Stable old new t := by
  intro id result fresh ok
  refine stable id result ?_ ok
  refine Bool.not_eq_true _ ▸ fun member => ?_
  rw [more id member] at fresh
  cases fresh

section Outside

variable {old new : Scene} {invalidated : KeySet String}

theorem stableClosedBefore (sound : old.net.Sound) (sound' : new.net.Sound)
    (closed : old.net.Closed invalidated)
    (unchanged : ∀ id, invalidated.contains id = false → Unchanged old new id) :
    Stable old new invalidated := by
  intro id c start
  refine evaluateUnchanged sound sound' unchanged (fun c member safe => ?_) start
  refine Bool.not_eq_true _ ▸ fun affected => ?_
  rw [closed c member affected] at safe
  cases safe

theorem stableClosedAfter (sound : old.net.Sound) (sound' : new.net.Sound)
    (closed : new.net.Closed invalidated)
    (unchanged : ∀ id, invalidated.contains id = false → Unchanged old new id) :
    Stable old new invalidated := by
  intro id c start
  refine evaluateUnchanged sound sound' unchanged (fun c member safe => ?_) start
  -- the same output feeds the input now
  have fed := (Net.feederIff sound.toIndexed).mpr ⟨member, rfl⟩
  have sources := (unchanged _ safe).sources c.target.name
  rw [fed] at sources
  obtain ⟨d, fed', same⟩ := Option.map_eq_some_iff.mp sources
  obtain ⟨member', target⟩ := (Net.feederIff sound'.toIndexed).mp fed'
  refine Bool.not_eq_true _ ▸ fun affected => ?_
  have reached := closed d member' (by rw [same]; exact affected)
  rw [target, safe] at reached
  cases reached

end Outside

theorem unchangedNode {old new : Scene} {id : String} (registry : new.registry = old.registry)
    (surroundings : new.surroundings = old.surroundings)
    (node : new.net.nodes.get? id = old.net.nodes.get? id)
    (sources : ∀ name, (new.net.feeder? ⟨id, name⟩).map Connection.source =
      (old.net.feeder? ⟨id, name⟩).map Connection.source) : Unchanged old new id := by
  refine ⟨fun n kind found known => ⟨n, ?_, registry ▸ known, by rw [surroundings]⟩, sources⟩
  exact Net.nodeFound.mpr (node.trans (Net.nodeFound.mp found))

theorem feederCongr {n m : Net} (left : n.Indexed) (right : m.Indexed) {input : Socket}
    (same : ∀ c, c.target = input → (c ∈ m.connectionList ↔ c ∈ n.connectionList)) :
    m.feeder? input = n.feeder? input := by
  refine Option.ext fun c => ?_
  rw [Net.feederIff left, Net.feederIff right]
  exact and_congr_left (same c)

section Edits

variable {p : Registry} {x : Exports} {n after : Net} {changes : Changes}

theorem insertNodeStable (sound : n.Sound) {node : Node}
    (ok : n.insertNode node = .ok (after, changes)) :
    Stable ⟨n, p, x⟩ ⟨after, p, x⟩ changes.invalidated := by
  have sound' := Net.insertNodeSound sound ok
  obtain ⟨fresh, e⟩ := Net.insertNodeIff.mp ok
  cases e
  refine stableClosedBefore sound sound' (fun c member new => ?_) (fun id other => ?_)
  · have same : c.source.node = node.id := by simpa using KeySet.containsOfList.mp new
    rw [← same, (sound.endsExist c member).1] at fresh
    cases fresh
  · refine unchangedNode rfl rfl ?_ fun _ => rfl
    refine (Table.getInsert ..).trans (if_neg fun same => ?_)
    rw [KeySet.containsOfList.mpr (by simp [same])] at other
    cases other

theorem removeConnectionStable (sound : n.Sound) (id : String) :
    Stable ⟨n, p, x⟩ ⟨(n.removeConnection id).1, p, x⟩ (n.removeConnection id).2.invalidated := by
  have sound' := Net.removeConnectionSound sound id
  cases found : n.connections.get? id with
  | none =>
    rw [Net.removeConnectionAbsent found]
    exact stableRefl _ _
  | some c =>
    rw [Net.removeConnectionFound sound.toIndexed found] at sound' ⊢
    have member : c ∈ n.connectionList := Table.memValues.mpr ⟨id, found⟩
    refine stableClosedAfter sound sound' (Net.downstreamClosed sound'.toIndexed _) fun k other => ?_
    refine unchangedNode rfl rfl rfl fun name => congrArg _ ?_
    refine feederCongr sound.toIndexed sound'.toIndexed fun d ends => ?_
    refine (Net.memUnlinked sound.toIndexed member).trans (and_iff_left fun same => ?_)
    exact Net.unaffected sound'.toIndexed other (by simp [← same, ends])

theorem insertConnectionStable (sound : n.Sound) {c : Connection}
    (ok : n.insertConnection c = .ok (after, changes)) :
    Stable ⟨n, p, x⟩ ⟨after, p, x⟩ changes.invalidated := by
  have sound' := Net.insertConnectionSound sound ok
  obtain ⟨⟨_, _, absent, _⟩, e⟩ := Net.insertConnectionIff.mp ok
  cases e
  refine stableClosedAfter sound sound' (Net.downstreamClosed sound'.toIndexed _) fun k other => ?_
  refine unchangedNode rfl rfl rfl fun name => congrArg _ ?_
  refine feederCongr sound.toIndexed sound'.toIndexed fun d ends => ?_
  rw [(Net.linkedPerm absent).mem_iff, List.mem_cons]
  refine or_iff_right fun same => ?_
  exact Net.unaffected sound'.toIndexed other (by simp [← same, ends])

theorem removeNodeStable (sound : n.Sound) {id : String}
    (ok : n.removeNode id = .ok (after, changes)) :
    Stable ⟨n, p, x⟩ ⟨after, p, x⟩ changes.invalidated := by
  cases (Net.removeNodeIff.mp ok).2
  have sound' := Net.withoutSound sound id
  have frame := Net.removeConnectionsOnlyLinks n
    ((n.incoming id ++ n.outgoing id).map Connection.id)
  refine stableMore (s := n.downstreamClosure [id]) ?_ fun k affected =>
    Changes.invalidatedAppend.mpr (.inl (Changes.invalidatedAppend.mpr (.inl affected)))
  have closed := Net.downstreamClosed sound.toIndexed [id]
  have gone : (n.downstreamClosure [id]).contains id = true := Net.downstreamSeed sound.toIndexed (by simp)
  refine stableClosedBefore sound sound' closed fun k other => ?_
  have different : k ≠ id := by simpa using Net.unaffected sound.toIndexed other
  refine unchangedNode ?_ ?_ ?_ fun name => congrArg _ ?_
  · rfl
  · exact congrArg (Surroundings.mk · x) frame.uniforms
  · refine (Table.getErase ..).trans ((if_neg different.symm).trans ?_)
    exact congrArg (Table.get? · k) frame.nodes
  · -- what the node feeds is affected with it
    refine feederCongr sound.toIndexed sound'.toIndexed fun c ends => ?_
    rw [Net.memWithout sound, ends]
    refine and_iff_left_of_imp fun member => ⟨fun source => ?_, different⟩
    have reached := closed c member (by rw [source]; exact gone)
    rw [ends, other] at reached
    cases reached

theorem setNodeOther {node : Node} {k : String} (different : node.id ≠ k) :
    Unchanged ⟨n, p, x⟩ ⟨n.setNode node, p, x⟩ k :=
  unchangedNode rfl rfl ((Table.getInsert ..).trans (if_neg different)) fun _ => rfl

theorem setNodeAlike {m node : Node} (found : n.node node.id = .ok m) (alike : m.Alike node) :
    Unchanged ⟨n, p, x⟩ ⟨n.setNode node, p, x⟩ node.id := by
  refine ⟨fun m' kind found' known => ⟨node, ?_, ?_, ?_⟩, fun _ => rfl⟩
  · exact Net.nodeFound.mpr ((Table.getInsert ..).trans (if_pos rfl))
  · cases found.symm.trans found'
    exact alike.type ▸ known
  · cases found.symm.trans found'
    exact (kind.compileAlike _ alike).symm

theorem setNodeStable (sound : n.Sound) {m node : Node} (found : n.node node.id = .ok m) :
    Stable ⟨n, p, x⟩ ⟨n.setNode node, p, x⟩ ((n.setNode node).downstreamClosure [node.id]) := by
  have sound' := Net.setNodeSound sound (Net.nodePresent sound found).2
  refine stableClosedAfter sound sound' (Net.downstreamClosed sound'.toIndexed _) fun k other => ?_
  exact setNodeOther fun same => Net.unaffected sound'.toIndexed other (by simp [same])

theorem setNodeAlikeStable (sound : n.Sound) {m node : Node} (found : n.node node.id = .ok m)
    (alike : m.Alike node) : Stable ⟨n, p, x⟩ ⟨n.setNode node, p, x⟩ ∅ := by
  have sound' := Net.setNodeSound sound (Net.nodePresent sound found).2
  refine stableClosedBefore sound sound' (fun _ _ impossible => nomatch impossible) fun k _ => ?_
  by_cases same : node.id = k
  · exact same ▸ setNodeAlike found alike
  · exact setNodeOther same

theorem setParameterStable (sound : n.Sound) {id name : String} {value : Parameter}
    (ok : n.setParameter id name value = .ok (after, changes)) :
    Stable ⟨n, p, x⟩ ⟨after, p, x⟩ changes.invalidated := by
  obtain ⟨node, found, ⟨rfl, _⟩ | ⟨rfl, rfl, _⟩⟩ := Net.setParameterCases ok
  · exact stableRefl _ _
  · obtain ⟨rfl, _⟩ := Net.nodePresent sound found
    exact setNodeStable sound found

theorem moveNodeStable (sound : n.Sound) {id : String} {dx dy : Double}
    (ok : n.moveNode id dx dy = .ok (after, changes)) :
    Stable ⟨n, p, x⟩ ⟨after, p, x⟩ changes.invalidated := by
  obtain ⟨node, found, rfl, rfl⟩ := Net.moveNodeCases ok
  obtain ⟨rfl, _⟩ := Net.nodePresent sound found
  exact setNodeAlikeStable sound found ⟨rfl, rfl, fun _ => rfl⟩

theorem patchNodeStable (sound : n.Sound) {node : Node}
    (plain : ∀ k m, n.nodes.get? k = some m → m.hasNegativeZero = false)
    (also : node.hasNegativeZero = false) (ok : n.patchNode node = .ok (after, changes)) :
    Stable ⟨n, p, x⟩ ⟨after, p, x⟩ changes.invalidated := by
  obtain ⟨m, found, ⟨rfl, _⟩ | ⟨rfl, rfl, _⟩⟩ := Net.patchNodeCases ok
  · exact stableRefl _ _
  · dsimp only
    split
    · rename_i content
      refine setNodeAlikeStable sound found (Node.contentAlike ?_ content ?_ also)
      · exact (Net.nodePresent sound found).1
      · exact plain _ m (Net.nodeFound.mp found)
    · exact setNodeStable sound found

theorem setConnectionTypeStable (sound : n.Sound) (id : String) (type : ValueType) :
    Stable ⟨n, p, x⟩ ⟨(n.setConnectionType id type).1, p, x⟩ ∅ := by
  refine stableClosedBefore sound (Net.setConnectionTypeSound sound id type)
    (fun _ _ impossible => nomatch impossible) fun k _ => ?_
  unfold Net.setConnectionType
  split
  · rename_i c found
    split
    · exact unchangedNode rfl rfl rfl fun _ => rfl
    · refine unchangedNode rfl rfl rfl fun name => ?_
      simp only [Net.feeder?]
      cases n.feeding.get? ⟨k, name⟩ with
      | none => rfl
      | some fed =>
        simp only [Option.bind_some, Table.getInsert]
        split
        · rename_i same
          rw [← same, found]
          rfl
        · rfl
  · exact unchangedNode rfl rfl rfl fun _ => rfl

end Edits
end ShaderNet.Scene

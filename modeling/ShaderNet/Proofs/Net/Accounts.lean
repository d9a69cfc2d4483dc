import ShaderNet.Proofs.Net.UpstreamKept

/-! What edits tell accounts for the net after them. Nodes, connections, uniforms and includes are those
before without what went, and then what came. -/
namespace ShaderNet

/- A list after two edits of it, if what comes with the first does not go with the second. -/
theorem filterTwice {α : Type} [DecidableEq α] {l gone come gone' come' : List α}
    (turn : come = [] ∨ gone' = []) :
    (l.filter (· ∉ gone) ++ come).filter (· ∉ gone') ++ come' =
      l.filter (· ∉ gone ++ gone') ++ (come ++ come') := by
  rcases turn with rfl | rfl
  · simp [List.filter_filter, Bool.and_comm]
  · simp

inductive Phase where
  | clearing
  | filling

namespace Changes

variable {gone : String → Prop} {phase : Phase} {c d : Changes}

structure Turn (c d : Changes) : Prop where
  nodes : c.addedNodes = [] ∨ d.removedNodes = []
  uniforms : c.updatedUniforms = ∅ ∨ d.removedUniforms = []
  includes : c.addedIncludes = [] ∨ d.removedIncludes = []

structure Clears (gone : String → Prop) (c : Changes) : Prop where
  nodes : c.addedNodes = []
  uniforms : c.updatedUniforms = ∅
  includes : c.addedIncludes = []
  removed : ∀ id ∈ c.removedNodes, gone id

structure Fills (gone : String → Prop) (c : Changes) : Prop where
  nodes : c.removedNodes = []
  uniforms : c.removedUniforms = []
  includes : c.removedIncludes = []
  added : ∀ node ∈ c.addedNodes, ¬ gone node.id

def Within (gone : String → Prop) : Phase → Changes → Prop
  | .clearing => Clears gone
  | .filling => Fills gone

theorem Within.append (first : c.Within gone phase) (second : d.Within gone phase) :
    (c ++ d).Within gone phase := by
  cases phase with
  | clearing =>
    have uniforms : (c ++ d).updatedUniforms = ∅ := by
      change c.updatedUniforms.overlay d.updatedUniforms.entries = ∅
      rw [first.uniforms, second.uniforms]
      rfl
    refine ⟨List.append_eq_nil_iff.mpr ⟨first.nodes, second.nodes⟩, uniforms,
      List.append_eq_nil_iff.mpr ⟨first.includes, second.includes⟩, fun id member => ?_⟩
    exact (List.mem_append.mp member).elim (first.removed id) (second.removed id)
  | filling =>
    refine ⟨List.append_eq_nil_iff.mpr ⟨first.nodes, second.nodes⟩,
      List.append_eq_nil_iff.mpr ⟨first.uniforms, second.uniforms⟩,
      List.append_eq_nil_iff.mpr ⟨first.includes, second.includes⟩, fun node member => ?_⟩
    exact (List.mem_append.mp member).elim (first.added node) (second.added node)

theorem Clears.turn (clears : c.Clears gone) (d : Changes) : c.Turn d :=
  ⟨.inl clears.nodes, .inl clears.uniforms, .inl clears.includes⟩

theorem Within.turn (first : c.Within gone phase) (second : d.Within gone phase) : c.Turn d := by
  cases phase with
  | clearing => exact first.turn d
  | filling => exact ⟨.inr second.nodes, .inr second.uniforms, .inr second.includes⟩

end Changes

namespace Net
open Number (Double)

variable {n m k : Net} {c d : Changes}

structure Accounts (n m : Net) (c : Changes) : Prop where
  connections : (n.connectionList ++ c.addedConnections).Perm
    (m.connectionList ++ c.removedConnections)
  order : m.order = n.order.filter (· ∉ c.removedNodes) ++ c.addedNodes.map Node.id
  uniforms : ∀ id, m.uniforms.get? id = (c.updatedUniforms.get? id).or
    (if id ∈ c.removedUniforms then none else n.uniforms.get? id)
  includes : m.includes.map Include.path =
    (n.includes.map Include.path).filter (· ∉ c.removedIncludes) ++ c.addedIncludes
  nodes : ∀ id, id ∉ c.removedNodes → id ∉ c.modifiedNodes → id ∉ c.addedNodes.map Node.id →
    m.nodes.get? id = n.nodes.get? id

theorem Accounts.append (first : Accounts n m c) (second : Accounts m k d) (turn : c.Turn d) :
    Accounts n k (c ++ d) where
  connections := by
    have first := first.connections.append_right d.addedConnections
    have second := second.connections.append_right c.removedConnections
    have swap : (m.connectionList ++ c.removedConnections ++ d.addedConnections).Perm
        (m.connectionList ++ d.addedConnections ++ c.removedConnections) := by
      rw [List.append_assoc, List.append_assoc]
      exact List.perm_append_comm.append_left _
    have last : (k.connectionList ++ d.removedConnections ++ c.removedConnections).Perm
        (k.connectionList ++ (c.removedConnections ++ d.removedConnections)) := by
      rw [List.append_assoc]
      exact List.perm_append_comm.append_left _
    rw [List.append_assoc] at first
    exact first.trans (swap.trans (second.trans last))
  order := by
    have none : c.addedNodes.map Node.id = [] ∨ d.removedNodes = [] :=
      turn.nodes.imp_left List.map_eq_nil_iff.mpr
    rw [second.order, first.order, filterTwice none, ← List.map_append]
    rfl
  uniforms id := by
    have updated : (c ++ d).updatedUniforms.get? id =
        (d.updatedUniforms.get? id).or (c.updatedUniforms.get? id) := Table.getOverlayTable ..
    have removed : (c ++ d).removedUniforms = c.removedUniforms ++ d.removedUniforms := rfl
    rw [second.uniforms, first.uniforms, updated, removed]
    rcases turn.uniforms with none | none
    · simp only [none, Table.getEmpty, Option.none_or, Option.or_none, List.mem_append]
      split <;> split <;> simp_all
    · simp [none, Option.or_assoc]
  includes := by
    rw [second.includes, first.includes]
    exact filterTwice turn.includes
  nodes id kept unchanged old := by
    have kept := not_or.mp (fun gone => kept (List.mem_append.mpr gone))
    have unchanged := not_or.mp (fun changed => unchanged (List.mem_append.mpr changed))
    have old : id ∉ c.addedNodes.map Node.id ++ d.addedNodes.map Node.id := by
      rw [← List.map_append]
      exact old
    have old := not_or.mp (fun new => old (List.mem_append.mpr new))
    exact (second.nodes id kept.2 unchanged.2 old.2).trans (first.nodes id kept.1 unchanged.1 old.1)

/-! Edits -/

theorem accountsNothing (n : Net) (invalidated : KeySet String) (warnings : List String) :
    Accounts n n { Changes.empty with invalidated := invalidated, warnings := warnings } := by
  constructor <;> simp [Changes.empty]

theorem insertNodeAccounts {node : Node} (ok : n.insertNode node = .ok (m, c)) : Accounts n m c := by
  cases (insertNodeIff.mp ok).2
  constructor
  case nodes =>
    intro id _ _ old
    have other : node.id ≠ id := by simpa [eq_comm] using old
    exact (Table.getInsert ..).trans (if_neg other)
  all_goals simp [Changes.empty, inserted, connectionList]

theorem insertConnectionAccounts {link : Connection} (ok : n.insertConnection link = .ok (m, c)) :
    Accounts n m c := by
  obtain ⟨⟨_, _, absent, _⟩, e⟩ := insertConnectionIff.mp ok
  cases e
  constructor
  case connections =>
    have more := (linkedPerm absent).symm
    simpa [Changes.empty] using List.perm_append_comm.trans more
  all_goals simp [Changes.empty, linked]

theorem removeConnectionAccounts (indexed : Indexed n) (id : String) :
    Accounts n (n.removeConnection id).1 (n.removeConnection id).2 := by
  cases found : n.connections.get? id with
  | none =>
    rw [removeConnectionAbsent found]
    exact accountsNothing n ∅ []
  | some link =>
    rw [removeConnectionFound indexed found]
    constructor
    case connections =>
      have same := indexed.connectionKeys id link found
      have fewer := unlinkedPerm (same ▸ found)
      simpa [Changes.empty] using fewer.trans (List.perm_append_singleton ..).symm
    all_goals simp [Changes.empty, unlinked]

/- A node whose place is taken by another is told of as modified. -/
theorem setNodeAccounts (n : Net) (node : Node) (invalidated : KeySet String) :
    Accounts n (n.setNode node)
      { Changes.empty with modifiedNodes := [node.id], invalidated := invalidated } := by
  constructor
  case nodes =>
    intro id _ unchanged _
    have other : node.id ≠ id := by simpa [eq_comm] using unchanged
    exact (Table.getInsert ..).trans (if_neg other)
  all_goals simp [Changes.empty, setNode, connectionList]

theorem setUniformAccounts (n : Net) (u : Uniform) (invalidated : KeySet String) :
    Accounts n (n.setUniform u).1 { (n.setUniform u).2 with invalidated := invalidated } := by
  unfold setUniform
  split
  · exact accountsNothing n invalidated []
  · constructor
    case uniforms =>
      intro id
      have told : (Table.ofList [(u.id, u)]).get? id = if u.id = id then some u else none :=
        Table.getInsert ..
      simp only [Changes.empty, told, Table.getInsert, List.not_mem_nil, if_false]
      split <;> rfl
    all_goals simp [Changes.empty, connectionList]

theorem removeUniformAccounts (n : Net) (id : String) (invalidated : KeySet String) :
    Accounts n (n.removeUniform id).1 { (n.removeUniform id).2 with invalidated := invalidated } := by
  unfold removeUniform
  split
  · constructor
    case uniforms =>
      intro other
      simp [Changes.empty, Table.getErase, eq_comm]
    all_goals simp [Changes.empty, connectionList]
  · exact accountsNothing n invalidated []

theorem addIncludeAccounts (n : Net) (path : String) (source : Option String) :
    Accounts n (n.addInclude path source).1 (n.addInclude path source).2 := by
  unfold addInclude
  split
  · constructor
    case includes => simp [Changes.empty, replaceSourcePaths]
    all_goals simp [Changes.empty, connectionList]
  · constructor <;> simp [Changes.empty, connectionList]

theorem removeIncludeAccounts (n : Net) (path : String) :
    Accounts n (n.removeInclude path).1 (n.removeInclude path).2 := by
  unfold removeInclude
  split
  · constructor
    case includes => simp [Changes.empty, List.filter_map, Function.comp_def]
    all_goals simp [Changes.empty, connectionList]
  · exact accountsNothing n ∅ []

theorem setParameterAccounts (sound : Sound n) {id name : String} {value : Parameter}
    (ok : n.setParameter id name value = .ok (m, c)) : Accounts n m c := by
  obtain ⟨node, found, ⟨rfl, rfl, _⟩ | ⟨rfl, rfl, _⟩⟩ := setParameterCases ok
  · exact accountsNothing _ ∅ []
  · obtain ⟨rfl, _⟩ := nodePresent sound found
    exact setNodeAccounts n _ _

theorem moveNodeAccounts (sound : Sound n) {id : String} {dx dy : Double}
    (ok : n.moveNode id dx dy = .ok (m, c)) : Accounts n m c := by
  obtain ⟨node, found, rfl, rfl⟩ := moveNodeCases ok
  obtain ⟨rfl, _⟩ := nodePresent sound found
  exact setNodeAccounts n _ ∅

theorem patchNodeAccounts {node : Node} (ok : n.patchNode node = .ok (m, c)) : Accounts n m c := by
  obtain ⟨_, _, ⟨rfl, rfl, _⟩ | ⟨rfl, rfl, _⟩⟩ := patchNodeCases ok
  · exact accountsNothing _ ∅ []
  · exact setNodeAccounts n node _

/-! Phases of edits -/

structure Tallied (used : List Connection) (gone : String → Prop) (phase : Phase) (n m : Net)
    (c : Changes) : Prop extends Accounts n m c where
  charted : Charted used m
  within : c.Within gone phase

variable {used : List Connection} {gone : String → Prop} {phase : Phase}

theorem Tallied.append (first : Tallied used gone phase n m c)
    (second : Tallied used gone phase m k d) : Tallied used gone phase n k (c ++ d) where
  toAccounts := first.toAccounts.append second.toAccounts (first.within.turn second.within)
  charted := second.charted
  within := first.within.append second.within

/- What tells of no node, uniform or include that comes or goes belongs to both phases. -/
theorem withinEither (modified : List String) (added removed : List Connection)
    (invalidated : KeySet String) (warnings : List String) : Changes.Within gone phase
      { Changes.empty with
        modifiedNodes := modified, addedConnections := added, removedConnections := removed
        invalidated := invalidated, warnings := warnings } := by
  cases phase with
  | clearing => exact ⟨rfl, rfl, rfl, fun _ member => nomatch member⟩
  | filling => exact ⟨rfl, rfl, rfl, fun _ member => nomatch member⟩

section Edits

variable (charted : Charted used n)
include charted

theorem nothingTallied (invalidated : KeySet String) (warnings : List String) :
    Tallied used gone phase n n { Changes.empty with invalidated := invalidated, warnings := warnings } :=
  ⟨accountsNothing n invalidated warnings, charted, withinEither [] [] [] invalidated warnings⟩

theorem insertNodeTallied {node : Node} (new : ¬ gone node.id)
    (ok : n.insertNode node = .ok (m, c)) : Tallied used gone .filling n m c := by
  refine ⟨insertNodeAccounts ok, (insertNodeUpstreamKept charted ok).charted, ?_⟩
  cases (insertNodeIff.mp ok).2
  refine ⟨rfl, rfl, rfl, fun other member => ?_⟩
  rw [List.mem_singleton.mp member]
  exact new

theorem setParameterTallied {id name : String} {value : Parameter}
    (ok : n.setParameter id name value = .ok (m, c)) : Tallied used gone phase n m c := by
  refine ⟨setParameterAccounts charted.toSound ok, (setParameterUpstreamKept charted ok).charted, ?_⟩
  obtain ⟨_, _, ⟨_, rfl, _⟩ | ⟨_, rfl, _⟩⟩ := setParameterCases ok
  · exact withinEither [] [] [] ∅ []
  · exact withinEither _ [] [] _ []

theorem moveNodeTallied {id : String} {dx dy : Double} (ok : n.moveNode id dx dy = .ok (m, c)) :
    Tallied used gone phase n m c := by
  refine ⟨moveNodeAccounts charted.toSound ok, (moveNodeUpstreamKept charted ok).charted, ?_⟩
  obtain ⟨_, _, _, rfl⟩ := moveNodeCases ok
  exact withinEither _ [] [] ∅ []

theorem patchNodeTallied {node : Node} (ok : n.patchNode node = .ok (m, c)) :
    Tallied used gone phase n m c := by
  refine ⟨patchNodeAccounts ok, (patchNodeUpstreamKept charted ok).charted, ?_⟩
  obtain ⟨_, _, ⟨_, rfl, _⟩ | ⟨_, rfl, _⟩⟩ := patchNodeCases ok
  · exact withinEither [] [] [] ∅ []
  · exact withinEither _ [] [] _ []

theorem insertConnectionTallied {link : Connection} (listed : Listed used link)
    (ok : n.insertConnection link = .ok (m, c)) : Tallied used gone phase n m c := by
  refine ⟨insertConnectionAccounts ok, (insertConnectionUpstreamKept charted listed ok).charted, ?_⟩
  cases (insertConnectionIff.mp ok).2
  exact withinEither [] _ [] _ []

theorem removeConnectionTallied (id : String) :
    Tallied used gone phase n (n.removeConnection id).1 (n.removeConnection id).2 := by
  refine ⟨removeConnectionAccounts charted.toIndexed id,
    (removeConnectionUpstreamKept charted id).charted, ?_⟩
  cases found : n.connections.get? id with
  | none =>
    rw [removeConnectionAbsent found]
    exact withinEither [] [] [] ∅ []
  | some link =>
    rw [removeConnectionFound charted.toIndexed found]
    exact withinEither [] [] _ _ []

theorem removeConnectionsTallied (ids : List String) :
    Tallied used gone phase n (n.removeConnections ids).1 (n.removeConnections ids).2 :=
  removeConnectionsInduct (motive := Tallied used gone phase n) (nothingTallied charted ∅ [])
    fun id _ _ _ before => before.append (removeConnectionTallied before.charted id)

theorem removeNodeTallied {id : String} (old : gone id) (ok : n.removeNode id = .ok (m, c)) :
    Tallied used gone .clearing n m c := by
  have kept := (removeNodeUpstreamKept charted ok).charted
  cases (removeNodeIff.mp ok).2
  have told : Tallied used gone .clearing n n { Changes.empty with invalidated := n.downstreamClosure [id] } :=
    nothingTallied charted (n.downstreamClosure [id]) []
  have cleared := told.append
    (removeConnectionsTallied charted ((n.incoming id ++ n.outgoing id).map Connection.id))
  refine cleared.append ⟨?_, kept, ?_⟩
  · constructor
    case nodes =>
      intro other stays _ _
      have different : id ≠ other := by simpa [eq_comm] using stays
      exact (Table.getErase ..).trans (if_neg different)
    all_goals simp [Changes.empty, without, connectionList]
  · refine ⟨rfl, rfl, rfl, fun other member => ?_⟩
    rw [List.mem_singleton.mp member]
    exact old

/- A connection that is refused leaves everything as it was. -/
theorem connectTallied (apart : Apart used) {link : Connection} (listed : Listed used link)
    {result : Except Failure Changes} (done : n.connect link = (result, m)) (message : String) :
    Tallied used gone phase n m (result.toOption.getD (.warning message)) := by
  rcases connectCases n link with
    ⟨e, refused⟩ | ⟨after, added, ok, accepted⟩ | ⟨old, fed, different, ends, replaced⟩
  · cases refused.symm.trans done
    exact nothingTallied charted ∅ [message]
  · cases accepted.symm.trans done
    exact insertConnectionTallied charted listed ok
  · obtain ⟨_, fits⟩ :=
      connectCleared charted.toIndexed charted.listed apart listed fed different ends
    rcases replaced with ⟨after, added, ok, accepted⟩ | ⟨e, failed, _⟩
    · cases accepted.symm.trans done
      have cleared : Tallied used gone phase n _ _ := removeConnectionTallied charted old.id
      exact cleared.append (insertConnectionTallied cleared.charted listed ok)
    · rw [fits] at failed
      cases failed

theorem setUniformTallied (u : Uniform) (invalidated : KeySet String) :
    Tallied used gone .filling n (n.setUniform u).1 { (n.setUniform u).2 with invalidated := invalidated } := by
  have sound := setUniformSound charted.toSound u
  refine ⟨setUniformAccounts n u invalidated,
    (quietUpstreamKept charted sound (n.setUniformQuiet u)).charted, ?_⟩
  unfold setUniform
  split <;> exact ⟨rfl, rfl, rfl, List.forall_mem_nil _⟩

theorem removeUniformTallied (id : String) (invalidated : KeySet String) :
    Tallied used gone .clearing n (n.removeUniform id).1
      { (n.removeUniform id).2 with invalidated := invalidated } := by
  have sound := removeUniformSound charted.toSound id
  refine ⟨removeUniformAccounts n id invalidated,
    (quietUpstreamKept charted sound (n.removeUniformQuiet id)).charted, ?_⟩
  unfold removeUniform
  split <;> exact ⟨rfl, rfl, rfl, List.forall_mem_nil _⟩

theorem addIncludeTallied (path : String) (source : Option String) :
    Tallied used gone .filling n (n.addInclude path source).1 (n.addInclude path source).2 := by
  have sound := addIncludeSound charted.toSound path source
  refine ⟨addIncludeAccounts n path source,
    (quietUpstreamKept charted sound (n.addIncludeQuiet path source)).charted, ?_⟩
  unfold addInclude
  split <;> exact ⟨rfl, rfl, rfl, fun _ member => nomatch member⟩

theorem removeIncludeTallied (path : String) :
    Tallied used gone .clearing n (n.removeInclude path).1 (n.removeInclude path).2 := by
  have sound := removeIncludeSound charted.toSound path
  refine ⟨removeIncludeAccounts n path,
    (quietUpstreamKept charted sound (n.removeIncludeQuiet path)).charted, ?_⟩
  unfold removeInclude
  split <;> exact ⟨rfl, rfl, rfl, fun _ member => nomatch member⟩

end Edits

/-! Whole edits -/

structure Balanced (n m : Net) (c : Changes) : Prop extends Accounts n m c where
  apart : ∀ node ∈ c.addedNodes, node.id ∉ c.removedNodes

theorem balancedNothing (n : Net) : Balanced n n .empty :=
  ⟨accountsNothing n ∅ [], fun _ member => nomatch member⟩

theorem Tallied.balanced (tallied : Tallied used gone phase n m c) : Balanced n m c := by
  refine ⟨tallied.toAccounts, fun node added => ?_⟩
  cases phase with
  | clearing =>
    rw [tallied.within.nodes] at added
    cases added
  | filling =>
    rw [tallied.within.nodes]
    exact List.not_mem_nil

theorem balancedPhases (first : Tallied used gone .clearing n m c)
    (second : Tallied used gone .filling m k d) : Balanced n k (c ++ d) := by
  refine ⟨first.toAccounts.append second.toAccounts (Changes.Clears.turn first.within d),
    fun node added => ?_⟩
  have added : node ∈ c.addedNodes ++ d.addedNodes := added
  change node.id ∉ c.removedNodes ++ d.removedNodes
  rw [first.within.nodes, List.nil_append] at added
  rw [second.within.nodes, List.append_nil]
  exact fun removed => second.within.added node added (first.within.removed _ removed)

/- A node that is there before and after is neither among those that went nor among those that
came. -/
theorem Balanced.modified (balanced : Balanced n m c) (before : Sound n) (after : Sound m)
    {id : String} {a b : Node} (old : n.nodes.get? id = some a) (new : m.nodes.get? id = some b)
    (different : a ≠ b) : id ∈ c.modifiedNodes := by
  have listed : id ∈ n.order := (before.orderNodes id).mpr (Table.containsIff.mpr ⟨a, old⟩)
  have still : id ∈ m.order := (after.orderNodes id).mpr (Table.containsIff.mpr ⟨b, new⟩)
  have nodup := after.orderNodup
  rw [balanced.order] at still nodup
  have kept : id ∉ c.removedNodes := by
    intro removed
    rcases List.mem_append.mp still with stays | comes
    · simp [removed] at stays
    · obtain ⟨node, added, rfl⟩ := List.mem_map.mp comes
      exact balanced.apart node added removed
  have unadded : id ∉ c.addedNodes.map Node.id := by
    intro comes
    have stays : id ∈ n.order.filter (· ∉ c.removedNodes) := by simp [listed, kept]
    exact (List.nodup_append.mp nodup).2.2 id stays id comes rfl
  by_contra unchanged
  have same := balanced.nodes id kept unchanged unadded
  rw [old, new] at same
  exact different (Option.some.inj same).symm

end Net
end ShaderNet

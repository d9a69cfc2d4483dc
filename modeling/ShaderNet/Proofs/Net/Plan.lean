import ShaderNet.Proofs.Document.WellFormed
import ShaderNet.Proofs.Net.Converge

/-! A plan brings a net to its document: what goes leaves exactly what both have, and what comes finds
its place free. -/
namespace ShaderNet

namespace Net

theorem nodeListIds {n : Net} (sound : Sound n) : n.nodeList.map Node.id = n.order := by
  have general : ∀ l : List String, (∀ id ∈ l, n.contains id = true) →
      (l.filterMap n.node?).map Node.id = l := by
    intro l present
    induction l with
    | nil => rfl
    | cons id rest ih =>
      obtain ⟨node, found⟩ := Table.containsIff.mp (present id List.mem_cons_self)
      have kept : n.node? id = some node := found
      rw [List.filterMap_cons_some kept, List.map_cons, sound.nodeKeys id node found,
        ih fun k member => present k (List.mem_cons_of_mem _ member)]
  exact general n.order fun id member => (sound.orderNodes id).mp member

end Net

namespace Plan
open Net

def cleared (plan : Plan) (sources : String → Option String) (n : Net) : Net :=
  let links := plan.removedConnections.foldl (fun n id => (n.removeConnection id).1) n
  let nodes := plan.removedNodes.foldl Net.without links
  let uniforms := plan.removedUniforms.foldl (fun n id => (n.removeUniform id).1) nodes
  let includes := plan.removedIncludes.foldl (fun n path => (n.removeInclude path).1) uniforms
  plan.addedIncludes.foldl (fun n path => (n.addInclude path (sources path)).1) includes

/-- What a net and a document have in common, and the includes of the document. A connection is
known by its name and goes with its nodes. -/
structure Cleared (n : Net) (d : Document) (after : Net) : Prop where
  sound : Sound after
  nodes : ∀ k, after.nodes.get? k = if k ∈ d.nodes.map Node.id then n.nodes.get? k else none
  order : after.order = n.order.filter fun k => k ∈ d.nodes.map Node.id
  connections : ∀ c, c ∈ after.connectionList ↔
    (c ∈ n.connectionList ∧ c.id ∈ d.connections.map Connection.id) ∧
      c.source.node ∈ d.nodes.map Node.id ∧ c.target.node ∈ d.nodes.map Node.id
  uniforms : ∀ k, after.uniforms.get? k =
    if d.uniforms.contains k = true then n.uniforms.get? k else none
  includes : ∀ path, path ∈ after.includes.map Include.path ↔ path ∈ d.includes

variable {n : Net} {d : Document}

theorem memRemovedConnections {c : Connection} (member : c ∈ n.connectionList) :
    c.id ∈ (n.reconcile d).removedConnections ↔ c.id ∉ d.connections.map Connection.id := by
  have listed : c.id ∈ n.connectionList.map Connection.id := List.mem_map.mpr ⟨c, member, rfl⟩
  rw [reconcile, List.mem_filter, Bool.not_eq_true', ← Bool.not_eq_true, KeySet.containsOfList]
  exact and_iff_right listed

theorem memRemovedNodes (sound : Sound n) {k : String} :
    k ∈ (n.reconcile d).removedNodes ↔ n.contains k = true ∧ k ∉ d.nodes.map Node.id := by
  rw [reconcile, List.mem_filter, Bool.not_eq_true', ← Bool.not_eq_true, KeySet.containsOfList,
    nodeListIds sound, sound.orderNodes]

theorem unlinkedFirst (sound : Sound n) :
    let links := (n.reconcile d).removedConnections.foldl (fun n id => (n.removeConnection id).1) n
    Sound links ∧ OnlyLinks n links ∧ ∀ c, c ∈ links.connectionList ↔
      c ∈ n.connectionList ∧ c.id ∈ d.connections.map Connection.id := by
  have sound' := removeConnectionsSound sound (n.reconcile d).removedConnections
  have frame := removeConnectionsOnlyLinks n (n.reconcile d).removedConnections
  have get := removeConnectionsGet sound (n.reconcile d).removedConnections
  rw [removeConnectionsNet] at sound' frame get
  refine ⟨sound', frame, fun c => ?_⟩
  rw [memConnections sound'.toIndexed, get]
  constructor
  · intro found
    split at found
    · cases found
    · rename_i kept
      have member := (memConnections sound.toIndexed).mpr found
      exact ⟨member, Classical.byContradiction fun gone =>
        kept ((memRemovedConnections member).mpr gone)⟩
  · rintro ⟨member, listed⟩
    rw [if_neg fun gone => (memRemovedConnections member).mp gone listed]
    exact (memConnections sound.toIndexed).mp member

theorem apartIncoming (apart : Apart (n.connectionList ++ d.connections)) : Apart d.connections :=
  fun c left c' right => apart c (List.mem_append.mpr (.inr left)) c'
    (List.mem_append.mpr (.inr right))

theorem keptLink (apart : Apart (n.connectionList ++ d.connections)) {c : Connection}
    (member : c ∈ n.connectionList) (listed : c.id ∈ d.connections.map Connection.id) :
    ∃ c' ∈ d.connections, c.source = c'.source ∧ c.target = c'.target := by
  obtain ⟨c', incoming, same⟩ := List.mem_map.mp listed
  exact ⟨c', incoming, apart c (List.mem_append.mpr (.inl member)) c'
    (List.mem_append.mpr (.inr incoming)) same.symm⟩

theorem withoutSecond (sound : Sound n) {links after : Net} (frame : OnlyLinks n links)
    (sound' : Sound links) (without : Without links (n.reconcile d).removedNodes after) :
    (∀ k, after.nodes.get? k = if k ∈ d.nodes.map Node.id then n.nodes.get? k else none) ∧
    after.order = n.order.filter (fun k => k ∈ d.nodes.map Node.id) ∧
    ∀ c, c ∈ after.connectionList ↔ c ∈ links.connectionList ∧
      c.source.node ∈ d.nodes.map Node.id ∧ c.target.node ∈ d.nodes.map Node.id := by
  have stays : ∀ {k}, n.contains k = true →
      (k ∉ (n.reconcile d).removedNodes ↔ k ∈ d.nodes.map Node.id) := by
    intro k present
    rw [memRemovedNodes sound, and_iff_right present, not_not]
  refine ⟨fun k => ?_, ?_, fun c => ?_⟩
  · rw [without.nodes, frame.nodes]
    cases found : n.nodes.get? k with
    | none => simp
    | some node => simp only [← stays (Table.containsIff.mpr ⟨node, found⟩), ite_not]
  · rw [without.order, frame.order]
    refine List.filter_congr fun k member => ?_
    simp only [stays ((sound.orderNodes k).mp member)]
  · rw [without.connections]
    refine and_congr_right fun member => ?_
    obtain ⟨source, target⟩ := sound'.endsExist c member
    rw [Net.contains, frame.nodes] at source target
    rw [stays source, stays target]

theorem clearedUniforms (k : String) :
    ((n.reconcile d).removedUniforms.foldl Table.erase n.uniforms).get? k =
      if d.uniforms.contains k = true then n.uniforms.get? k else none := by
  rw [Table.getEraseAll, reconcile]
  by_cases listed : d.uniforms.contains k = true
  · simp [listed]
  · rw [if_neg listed]
    split
    · rfl
    · rename_i stays
      cases found : n.uniforms.get? k with
      | none => rfl
      | some u =>
        refine absurd (List.mem_filter.mpr ⟨Table.memKeys.mpr ⟨u, found⟩, ?_⟩) stays
        simpa using listed

theorem clearedIncludes (sources : String → Option String) (path : String) :
    path ∈ ((n.reconcile d).addedIncludes.foldl
        (fun includes path => included path (sources path) includes)
        (n.includes.filter fun i => i.path ∉ (n.reconcile d).removedIncludes)).map Include.path ↔
      path ∈ d.includes := by
  rw [memIncludedAll]
  simp only [reconcile, List.mem_map, List.mem_filter, decide_eq_true_eq, Bool.not_eq_true']
  constructor
  · intro present
    rcases present with ⟨i, ⟨member, kept⟩, rfl⟩ | ⟨listed, _⟩
    · exact Classical.byContradiction fun gone => kept ⟨⟨i, member, rfl⟩, gone⟩
    · exact listed
  · intro listed
    cases present : n.includes? path with
    | false => exact .inr ⟨listed, rfl⟩
    | true =>
      obtain ⟨i, member, e⟩ := List.mem_map.mp (includesIff.mp present)
      exact .inl ⟨i, ⟨member, fun gone => gone.2 (e ▸ listed)⟩, e⟩

theorem clearedNet (sound : Sound n) (sources : String → Option String) :
    Cleared n d ((n.reconcile d).cleared sources n) := by
  obtain ⟨linksSound, frame, kept⟩ := unlinkedFirst (d := d) sound
  have without := withoutAll linksSound (n.reconcile d).removedNodes
  obtain ⟨nodes, order, connections⟩ := withoutSecond (d := d) sound frame linksSound without
  have whole : Sound ((n.reconcile d).cleared sources n) :=
    foldlSound (fun n path sound => addIncludeSound sound path (sources path))
      (foldlSound (fun n path sound => removeIncludeSound sound path)
        (foldlSound (fun n id sound => removeUniformSound sound id) without.sound _) _) _
  have uniforms := without.uniforms.trans frame.uniforms
  have includes := without.includes.trans frame.includes
  rw [cleared, addIncludesNet, removeIncludesNet, removeUniformsNet] at whole ⊢
  refine ⟨whole, nodes, order, fun c => ?_, fun k => ?_, fun path => ?_⟩
  · rw [← kept]
    exact connections c
  · rw [uniforms]
    exact clearedUniforms k
  · rw [includes]
    exact clearedIncludes sources path

/-! What comes -/

def placed (plan : Plan) (n : Net) : Net :=
  plan.addedNodes.foldl inserted (plan.updatedUniforms.foldl (fun n u => (n.setUniform u).1) n)

def filled (plan : Plan) (n : Net) : Net :=
  plan.modifiedNodes.foldl patched (plan.addedConnections.foldl offered (plan.placed n))

theorem emptyNet {plan : Plan} (empty : plan.isEmpty = true) (sources : String → Option String)
    (n : Net) : plan.filled (plan.cleared sources n) = n := by
  simp only [isEmpty, Bool.and_eq_true, List.isEmpty_iff] at empty
  obtain ⟨⟨⟨⟨⟨⟨⟨⟨links, nodes⟩, uniforms⟩, fewer⟩, more⟩, set⟩, added⟩, connected⟩, patches⟩ := empty
  simp only [filled, placed, cleared, links, nodes, uniforms, fewer, more, set, added, connected, patches,
    List.foldl_nil]

theorem memAdded {node : Node} :
    node ∈ (n.reconcile d).addedNodes ↔ node ∈ d.nodes ∧ n.nodes.get? node.id = none := by
  rw [reconcile, List.mem_filter, Bool.not_eq_true', contains, Table.containsFalse]

theorem memModified {node : Node} :
    node ∈ (n.reconcile d).modifiedNodes ↔
      node ∈ d.nodes ∧ ∃ old, n.nodes.get? node.id = some old ∧ old.same node = false := by
  rw [reconcile, List.mem_filter, Option.any_eq_true]
  simp only [node?, Bool.not_eq_true']

theorem removedUniformsNil : (n.reconcile d).removedUniforms = [] ↔
    ∀ k, n.uniforms.contains k = true → d.uniforms.contains k = true := by
  rw [reconcile, List.filter_eq_nil_iff]
  simp [Table.memKeysContains]

theorem updatedUniformsNil : (n.reconcile d).updatedUniforms = [] ↔
    ∀ u ∈ d.uniforms.values, (n.uniforms.get? u.id).any (fun v => v.same u) = true := by
  rw [reconcile, List.filter_eq_nil_iff]
  simp only [uniform?, Bool.not_eq_true', Bool.not_eq_false]

theorem addedIds (orderly : d.Orderly) : ((n.reconcile d).addedNodes.map Node.id).Nodup :=
  orderly.nodeIds.sublist (List.filter_sublist.map _)

theorem addedFresh {m : Net} (cleared : Cleared n d m) :
    ∀ node ∈ (n.reconcile d).addedNodes, m.nodes.get? node.id = none := by
  intro node member
  rw [cleared.nodes]
  split
  · exact (memAdded.mp member).2
  · rfl

theorem nodesThere (orderly : d.Orderly) {m : Net} (cleared : Cleared n d m) {k : String}
    (listed : k ∈ d.nodes.map Node.id) :
    ((n.reconcile d).addedNodes.foldl (Table.refresh Node.same Node.id) m.nodes).contains k = true := by
  obtain ⟨node, member, e⟩ := List.mem_map.mp listed
  cases present : n.nodes.get? k with
  | some old =>
    have absent : ∀ other ∈ (n.reconcile d).addedNodes, other.id ≠ k := by
      intro other new e
      have fresh := (memAdded.mp new).2
      rw [e, present] at fresh
      cases fresh
    rw [Table.contains, Table.getRefreshAbsent absent, cleared.nodes, if_pos listed, present]
    rfl
  | none =>
    have new : node ∈ (n.reconcile d).addedNodes := memAdded.mpr ⟨member, e ▸ present⟩
    rw [Table.contains, ← e, Table.getRefreshPresent (addedIds orderly) new,
      addedFresh cleared node new]
    rfl

theorem incomingIds (orderly : d.Orderly) (apart : Apart d.connections) :
    (d.connections.map Connection.id).Nodup := by
  refine (List.Nodup.of_map _ orderly.fanIn).map_on fun c left c' right same => ?_
  exact List.inj_on_of_nodup_map orderly.fanIn left right (apart c left c' right same).2

theorem memIncoming {c : Connection} :
    c ∈ (n.reconcile d).addedConnections ↔ ∃ c' ∈ d.connections,
      n.connections.get? c'.id = none ∧ { c' with type := none } = c := by
  rw [reconcile, List.mem_map]
  simp only [List.mem_filter, Bool.not_eq_true', Table.containsFalse, and_assoc]

/- A connection that comes has no namesake in the net. -/
theorem addedOffers (sound : Sound n) (orderly : d.Orderly) (apart : Apart d.connections)
    {m after : Net} (cleared : Cleared n d m) (connections : after.connections = m.connections)
    (there : ∀ k ∈ d.nodes.map Node.id, after.contains k = true) :
    Offers after (n.reconcile d).addedConnections := by
  refine ⟨fun c member => ?_, fun c member => ?_, ?_, ?_⟩
  · obtain ⟨c', incoming, _, rfl⟩ := memIncoming.mp member
    obtain ⟨left, right⟩ := orderly.ends c' incoming
    exact ⟨there _ left, there _ right⟩
  · obtain ⟨c', incoming, absent, rfl⟩ := memIncoming.mp member
    rw [connections]
    cases found : m.connections.get? (Connection.id { c' with type := none }) with
    | none => rfl
    | some e =>
      have kept := ((cleared.connections e).mp (Table.memValues.mpr ⟨_, found⟩)).1.1
      have same : e.id = c'.id := cleared.sound.connectionKeys _ e found
      rw [← same, (memConnections sound.toIndexed).mp kept] at absent
      cases absent
  · rw [reconcile, List.map_map]
    exact (incomingIds orderly apart).sublist (List.filter_sublist.map _)
  · rw [reconcile, List.map_map]
    exact orderly.fanIn.sublist (List.filter_sublist.map _)

/- Nothing feeds the input of a connection that comes: what does would be one that stays, and the
document has one connection for each input. -/
theorem addedFree (sound : Sound n) (orderly : d.Orderly)
    (apart : Apart (n.connectionList ++ d.connections)) {m : Net} (cleared : Cleared n d m)
    {c : Connection} (new : c ∈ (n.reconcile d).addedConnections) :
    ∀ e ∈ m.connectionList, e.target ≠ c.target := by
  intro e stays ends
  obtain ⟨c', incoming, absent, rfl⟩ := memIncoming.mp new
  obtain ⟨⟨kept, listed⟩, _⟩ := (cleared.connections e).mp stays
  obtain ⟨e', incoming', left, right⟩ := keptLink apart kept listed
  have one : e' = c' :=
    List.inj_on_of_nodup_map orderly.fanIn incoming' incoming (right.symm.trans ends)
  subst one
  rw [← idOfEnds left right, (memConnections sound.toIndexed).mp kept] at absent
  cases absent

theorem placedNet (orderly : d.Orderly) {m : Net} (cleared : Cleared n d m) :
    (n.reconcile d).placed m =
      { m with
        nodes := (n.reconcile d).addedNodes.foldl (Table.refresh Node.same Node.id) m.nodes
        order := m.order ++ (n.reconcile d).addedNodes.map Node.id
        uniforms := (n.reconcile d).updatedUniforms.foldl (Table.refresh Uniform.same Uniform.id)
          m.uniforms } := by
  have fresh := addedFresh cleared
  rw [placed, setUniformsNet]
  exact insertedNet (addedIds orderly) fresh

theorem placedSound {m : Net} (orderly : d.Orderly) (cleared : Cleared n d m) :
    Sound ((n.reconcile d).placed m) := by
  have uniforms : Sound ((n.reconcile d).updatedUniforms.foldl (fun n u => (n.setUniform u).1) m) :=
    foldlSound (fun n u sound => setUniformSound sound u) cleared.sound _
  have fresh := addedFresh cleared
  refine insertedSound uniforms (addedIds orderly) ?_
  rw [setUniformsNet]
  exact fresh

theorem placedOffers (sound : Sound n) (orderly : d.Orderly) (apart : Apart d.connections) {m : Net}
    (cleared : Cleared n d m) :
    Offers ((n.reconcile d).placed m) (n.reconcile d).addedConnections := by
  rw [placedNet orderly cleared]
  exact addedOffers sound orderly apart cleared rfl fun k listed => nodesThere orderly cleared listed

theorem placedFits (sound : Sound n) (orderly : d.Orderly)
    (apart : Apart (n.connectionList ++ d.connections)) {m : Net} (cleared : Cleared n d m) :
    Fits ((n.reconcile d).placed m) (n.reconcile d).addedConnections := by
  refine ⟨placedOffers sound orderly (apartIncoming apart) cleared, fun c new => ?_⟩
  rw [placedNet orderly cleared]
  exact (feedingNone cleared.sound.toIndexed).mpr (addedFree sound orderly apart cleared new)

/-- A net that holds what a net and a document have in common, and all else of the document but
connections whose inputs are taken. -/
structure Filled (n : Net) (d : Document) (m after : Net) : Prop where
  nodes : after.nodes = ((n.reconcile d).addedNodes ++ (n.reconcile d).modifiedNodes).foldl
    (Table.refresh Node.same Node.id) m.nodes
  order : after.order = m.order ++ (n.reconcile d).addedNodes.map Node.id
  connections : ∀ c, c ∈ after.connectionList ↔ c ∈ m.connectionList ∨
    c ∈ (n.reconcile d).addedConnections ∧ ∀ e ∈ m.connectionList, e.target ≠ c.target
  uniforms : after.uniforms =
    (n.reconcile d).updatedUniforms.foldl (Table.refresh Uniform.same Uniform.id) m.uniforms
  includes : after.includes = m.includes

theorem filledNet (sound : Sound n) (orderly : d.Orderly) (apart : Apart d.connections) {m : Net}
    (cleared : Cleared n d m) : Filled n d m ((n.reconcile d).filled m) := by
  obtain ⟨frame, _, members⟩ := offeredAll (placedSound orderly cleared)
    (placedOffers sound orderly apart cleared)
  rw [filled, patchedNet]
  rw [placedNet orderly cleared] at frame members ⊢
  refine ⟨?_, frame.order, members, frame.uniforms, frame.includes⟩
  rw [List.foldl_append]
  exact congrArg (List.foldl _ · _) frame.nodes

/-! What is there then -/

theorem filledNodes (orderly : d.Orderly) {m after : Net} (cleared : Cleared n d m)
    (filled : Filled n d m after) (id : String) :
    Option.Rel (fun old node => old.same node = true) (after.nodes.get? id)
      (d.nodes.find? fun node => node.id = id) := by
  have held : ∀ node ∈ d.nodes, m.nodes.get? node.id = n.nodes.get? node.id := fun node member =>
    (cleared.nodes _).trans (if_pos (List.mem_map.mpr ⟨node, member, rfl⟩))
  have single := List.Nodup.of_map _ orderly.nodeIds
  rw [filled.nodes]
  refine Table.refreshAgrees orderly.nodeIds ?_ (fun k present => ?_) (fun node => ?_)
    (fun node member => Node.sameSelf (orderly.nodeNumbers node member)) id
  · refine List.nodup_append.mpr ⟨single.filter _, single.filter _, ?_⟩
    intro node added other modified e
    obtain ⟨_, old, present, _⟩ := memModified.mp modified
    rw [← e, (memAdded.mp added).2] at present
    cases present
  · rw [Table.contains, cleared.nodes] at present
    split at present
    · assumption
    · cases present
  · rw [List.mem_append, memAdded, memModified, ← and_or_left]
    refine and_congr_right fun member => ?_
    rw [held node member]
    cases n.nodes.get? node.id <;> simp

theorem filledConnections {m after : Net} (orderly : d.Orderly) (sound : Sound n)
    (apart : Apart (n.connectionList ++ d.connections)) (cleared : Cleared n d m)
    (filled : Filled n d m after) (sound' : Sound after) :
    (after.connectionList.map fun c => (c.source, c.target)).Perm
      (d.connections.map fun c => (c.source, c.target)) := by
  have ends : ∀ {l : List Connection}, (l.map Connection.target).Nodup →
      (l.map fun c => (c.source, c.target)).Nodup := by
    intro l nodup
    refine List.Nodup.of_map Prod.snd ?_
    rw [List.map_map]
    exact nodup
  refine (List.perm_ext_iff_of_nodup (ends sound'.fanIn) (ends orderly.fanIn)).mpr fun p => ?_
  simp only [List.mem_map, filled.connections]
  constructor
  · intro ⟨c, member, e⟩
    rcases member with stays | ⟨new, _⟩
    · obtain ⟨⟨kept, listed⟩, _⟩ := (cleared.connections c).mp stays
      obtain ⟨c', incoming, source, target⟩ := keptLink apart kept listed
      exact ⟨c', incoming, by rw [← e, source, target]⟩
    · obtain ⟨c', incoming, _, rfl⟩ := memIncoming.mp new
      exact ⟨c', incoming, e⟩
  · intro ⟨c, incoming, e⟩
    cases present : n.connections.get? c.id with
    | none =>
      have new : { c with type := none } ∈ (n.reconcile d).addedConnections :=
        memIncoming.mpr ⟨c, incoming, present, rfl⟩
      exact ⟨_, .inr ⟨new, addedFree sound orderly apart cleared new⟩, e⟩
    | some old =>
      have kept : old ∈ n.connectionList := Table.memValues.mpr ⟨_, present⟩
      have same := sound.connectionKeys _ old present
      obtain ⟨source, target⟩ := apart old (List.mem_append.mpr (.inl kept)) c
        (List.mem_append.mpr (.inr incoming)) same
      have stays : old ∈ m.connectionList := by
        refine (cleared.connections old).mpr ⟨⟨kept, List.mem_map.mpr ⟨c, incoming, same.symm⟩⟩, ?_⟩
        rw [source, target]
        exact orderly.ends c incoming
      exact ⟨old, .inl stays, by rw [← e, source, target]⟩

theorem filledUniforms (formed : d.WellFormed) {m after : Net} (cleared : Cleared n d m)
    (filled : Filled n d m after) : Table.agrees Uniform.same after.uniforms d.uniforms = true := by
  have keys : (d.uniforms.values.map Uniform.id).Nodup := by
    rw [formed.uniformIds]
    exact Table.keysNodup _
  refine Table.agreesIff.mpr fun k => ?_
  rw [filled.uniforms, ← formed.findUniform]
  refine Table.refreshAgrees keys ((List.Nodup.of_map _ keys).filter _) (fun k present => ?_)
    (fun u => ?_) (fun u member => Uniform.sameSelf (formed.uniformNumbers u member)) k
  · rw [Table.contains, cleared.uniforms] at present
    split at present
    · rw [formed.uniformIds]
      exact Table.memKeysContains.mpr (by assumption)
    · cases present
  · rw [List.mem_filter, Bool.not_eq_true', uniform?]
    refine and_congr_right fun member => ?_
    have listed : u.id ∈ d.uniforms.keys := by
      rw [← formed.uniformIds]
      exact List.mem_map.mpr ⟨u, member, rfl⟩
    rw [cleared.uniforms, if_pos (Table.memKeysContains.mp listed)]

/- Nodes in both stay where they were among each other. -/
theorem filledOrder (sound : Sound n) {m after : Net} (cleared : Cleared n d m)
    (filled : Filled n d m after) :
    after.order.filter (fun id => n.contains id) =
      n.order.filter fun id => id ∈ d.nodes.map Node.id := by
  have came : ((n.reconcile d).addedNodes.map Node.id).filter (fun id => n.contains id) = [] := by
    refine List.filter_eq_nil_iff.mpr fun id member => ?_
    obtain ⟨node, new, rfl⟩ := List.mem_map.mp member
    rw [contains, Table.contains, (memAdded.mp new).2]
    simp
  have stayed : m.order.filter (fun id => n.contains id) = m.order := by
    refine List.filter_eq_self.mpr fun id member => ?_
    rw [cleared.order] at member
    exact (sound.orderNodes id).mp (List.mem_filter.mp member).1
  rw [filled.order, List.filter_append, came, stayed, List.append_nil, cleared.order]

end Plan
end ShaderNet

import Mathlib.Data.List.Perm.Basic
import ShaderNet.Proofs.Net.Indexes

/-! The invariant of nets: every table holds what its keys promise, and the look-ups are those of the
connections. It holds of the empty net and no edit breaks it. -/
namespace ShaderNet.Net

/-- Connections are kept under their own identifiers, no two of them end at one input, and the
look-ups are theirs. -/
structure Indexed (n : Net) : Prop where
  connectionKeys : ∀ id c, n.connections.get? id = some c → c.id = id
  fanIn : (n.connectionList.map Connection.target).Nodup
  feeding : n.feeding = feedingOf n.connectionList
  feeds : n.feeds = feedsOf n.connectionList
  touching : n.touching = touchingOf n.connectionList

structure Sound (n : Net) : Prop extends Indexed n where
  orderNodup : n.order.Nodup
  orderNodes : ∀ id, id ∈ n.order ↔ n.contains id = true
  nodeKeys : ∀ id node, n.nodes.get? id = some node → node.id = id
  endsExist : ∀ c ∈ n.connectionList,
    n.contains c.source.node = true ∧ n.contains c.target.node = true
  uniformKeys : ∀ id u, n.uniforms.get? id = some u → u.id = id
  includePaths : (n.includes.map Include.path).Nodup

theorem emptySound : Sound empty where
  connectionKeys _ _ found := by simp [empty] at found
  fanIn := .nil
  feeding := rfl
  feeds := rfl
  touching := rfl
  orderNodup := .nil
  orderNodes id := by simp [empty, contains, Table.contains]
  nodeKeys _ _ found := by simp [empty] at found
  endsExist _ member := by simp [empty, connectionList, Table.values, EmptyCollection.emptyCollection,
    Table.empty] at member
  uniformKeys _ _ found := by simp [empty] at found
  includePaths := .nil

theorem foldlSound {α : Type} {step : Net → α → Net} (keeps : ∀ n i, Sound n → Sound (step n i))
    {n : Net} (sound : Sound n) (items : List α) : Sound (items.foldl step n) := by
  induction items generalizing n with
  | nil => exact sound
  | cons i rest ih => exact ih (keeps n i sound)

/-! What the look-ups answer -/

section LookUps

variable {n : Net}

theorem memConnections (indexed : Indexed n) {c : Connection} :
    c ∈ n.connectionList ↔ n.connections.get? c.id = some c := by
  refine Table.memValues.trans ⟨?_, fun found => ⟨_, found⟩⟩
  rintro ⟨id, found⟩
  rw [indexed.connectionKeys id c found]
  exact found

theorem sameConnection (indexed : Indexed n) {c d : Connection} (left : c ∈ n.connectionList)
    (right : d ∈ n.connectionList) (same : c.id = d.id) : c = d := by
  have found := (memConnections indexed).mp left
  rw [same, (memConnections indexed).mp right] at found
  exact (Option.some.inj found).symm

theorem connectionIds (indexed : Indexed n) :
    n.connectionList.map Connection.id = n.connections.keys := by
  rw [connectionList, Table.values, Table.keys, List.map_map]
  refine List.map_congr_left fun p member => ?_
  exact indexed.connectionKeys p.1 p.2 (Table.getIff.mpr member)

theorem feederIff (indexed : Indexed n) {input : Socket} {c : Connection} :
    n.feeder? input = some c ↔ c ∈ n.connectionList ∧ c.target = input := by
  rw [feeder?, Option.bind_eq_some_iff, indexed.feeding]
  constructor
  · rintro ⟨id, fed, found⟩
    obtain ⟨d, member, e, rfl⟩ := (getFeedingOf indexed.fanIn).mp fed
    cases ((memConnections indexed).mp member).symm.trans found
    exact ⟨member, e⟩
  · rintro ⟨member, e⟩
    exact ⟨c.id, (getFeedingOf indexed.fanIn).mpr ⟨c, member, e, rfl⟩,
      (memConnections indexed).mp member⟩

theorem memFedBy (indexed : Indexed n) {output : Socket} {c : Connection} :
    c ∈ n.fedBy output ↔ c ∈ n.connectionList ∧ c.source = output := by
  rw [fedBy, indexed.feeds, getFeedsOf, Option.filter_some]
  constructor
  · intro member
    split at member
    · rename_i ids found
      split at found
      · cases found
        obtain ⟨id, fed, found⟩ := List.mem_filterMap.mp member
        rw [Table.memKeysContains, containsConsumers] at fed
        obtain ⟨d, member, e, rfl⟩ := fed
        cases ((memConnections indexed).mp member).symm.trans found
        exact ⟨member, e⟩
      · cases found
    · cases member
  · rintro ⟨member, rfl⟩
    rw [consumersSome member]
    refine List.mem_filterMap.mpr ⟨c.id, ?_, (memConnections indexed).mp member⟩
    exact Table.memKeysContains.mpr (containsConsumers.mpr ⟨c, member, rfl, rfl⟩)

theorem touchingFound (indexed : Indexed n) {c : Connection} (member : c ∈ n.connectionList)
    {id : String} (touched : c.source.node = id ∨ c.target.node = id) :
    n.touching? id = some (touchingAt n.connectionList id) := by
  rw [touching?, indexed.touching, getTouchingOf, touchedSome member touched]

theorem memIncoming (indexed : Indexed n) {id : String} {c : Connection} :
    c ∈ n.incoming id ↔ c ∈ n.connectionList ∧ c.target.node = id := by
  rw [incoming]
  constructor
  · intro member
    split at member
    · obtain ⟨name, _, found⟩ := List.mem_filterMap.mp member
      obtain ⟨member, e⟩ := (feederIff indexed).mp found
      exact ⟨member, by rw [e]⟩
    · cases member
  · rintro ⟨member, rfl⟩
    rw [touchingFound indexed member (.inr rfl)]
    refine List.mem_filterMap.mpr ⟨c.target.name, ?_, (feederIff indexed).mpr ⟨member, rfl⟩⟩
    exact Table.memKeysContains.mpr (containsInputs.mpr ⟨c, member, rfl⟩)

theorem memOutgoing (indexed : Indexed n) {id : String} {c : Connection} :
    c ∈ n.outgoing id ↔ c ∈ n.connectionList ∧ c.source.node = id := by
  rw [outgoing]
  constructor
  · intro member
    split at member
    · obtain ⟨name, _, found⟩ := List.mem_flatMap.mp member
      obtain ⟨member, e⟩ := (memFedBy indexed).mp found
      exact ⟨member, by rw [e]⟩
    · cases member
  · rintro ⟨member, rfl⟩
    rw [touchingFound indexed member (.inl rfl)]
    refine List.mem_flatMap.mpr ⟨c.source.name, ?_, (memFedBy indexed).mpr ⟨member, rfl⟩⟩
    rw [Table.memKeysContains, Table.contains, getOutputs, positive]
    split
    · rename_i zero
      exact absurd rfl (usesZero.mp zero c member)
    · rfl

theorem memTouching (indexed : Indexed n) {id : String} {c : Connection} :
    c ∈ n.incoming id ++ n.outgoing id ↔
      c ∈ n.connectionList ∧ (c.source.node = id ∨ c.target.node = id) := by
  rw [List.mem_append, memIncoming indexed, memOutgoing indexed, ← and_or_left, or_comm]

theorem touchingIds (indexed : Indexed n) {id : String} {c : Connection}
    (member : c ∈ n.connectionList) :
    c.id ∈ (n.incoming id ++ n.outgoing id).map Connection.id ↔
      c.source.node = id ∨ c.target.node = id := by
  constructor
  · intro listed
    obtain ⟨d, found, same⟩ := List.mem_map.mp listed
    obtain ⟨member', touches⟩ := (memTouching indexed).mp found
    exact sameConnection indexed member' member same ▸ touches
  · exact fun touches => List.mem_map.mpr ⟨c, (memTouching indexed).mpr ⟨member, touches⟩, rfl⟩

theorem memNodeList (sound : Sound n) {node : Node} :
    node ∈ n.nodeList ↔ n.nodes.get? node.id = some node := by
  rw [nodeList, List.mem_filterMap]
  constructor
  · rintro ⟨id, _, found⟩
    exact sound.nodeKeys id node found ▸ found
  · intro found
    exact ⟨node.id, (sound.orderNodes _).mpr (Table.containsIff.mpr ⟨node, found⟩), found⟩

end LookUps

/-! Connections come and go -/

def linked (n : Net) (c : Connection) : Net :=
  { n with
    connections := n.connections.insert c.id c
    feeding := n.feeding.insert c.target c.id
    feeds := n.feeds.insert c.source (((n.feeds.get? c.source).getD ∅).add c.id)
    touching := (n.touching.alter c.target.node (withInput · c.target.name)).alter c.source.node
      (withOutput · c.source.name) }

def unlinked (n : Net) (c : Connection) : Net :=
  { n with
    connections := n.connections.erase c.id
    feeding := n.feeding.erase c.target
    feeds := n.feeds.alter c.source (dropConsumer · c.id)
    touching := (((n.touching.alter c.target.node (withoutInput · c.target.name)).alter
      c.source.node (withoutOutput · c.source.name)).alter c.source.node unlessEmpty).alter
      c.target.node unlessEmpty }

theorem insertConnectionIff {n : Net} {c : Connection} {r : Net × Changes} :
    n.insertConnection c = .ok r ↔
      (n.contains c.source.node = true ∧ n.contains c.target.node = true ∧
        n.connections.get? c.id = none ∧ n.feeding.get? c.target = none) ∧
      r = (n.linked c, { Changes.empty with
        addedConnections := [c], invalidated := (n.linked c).downstreamClosure [c.target.node] }) := by
  unfold insertConnection
  cases source : n.contains c.source.node
  · simp
  · cases target : n.contains c.target.node
    · simp
    · cases present : n.connections.get? c.id with
      | some d => simp [Table.contains, present]
      | none =>
        cases fed : n.feeding.get? c.target with
        | some id => simp [Table.contains, present, fed]
        | none =>
          simp only [Table.contains, present, fed]
          exact ⟨fun ok => ⟨by simp, (Except.ok.inj ok).symm⟩, fun ok => congrArg Except.ok ok.2.symm⟩

theorem removeConnectionAbsent {n : Net} {id : String} (absent : n.connections.get? id = none) :
    n.removeConnection id = (n, .empty) := by
  simp only [removeConnection, absent]

theorem removeConnectionFound {n : Net} (indexed : Indexed n) {id : String} {c : Connection}
    (found : n.connections.get? id = some c) :
    n.removeConnection id = (n.unlinked c, { Changes.empty with
      removedConnections := [c], invalidated := (n.unlinked c).downstreamClosure [c.target.node] }) := by
  have same := indexed.connectionKeys id c found
  subst same
  simp only [removeConnection, found]
  rfl

theorem linkedPerm {n : Net} {c : Connection} (absent : n.connections.get? c.id = none) :
    (n.linked c).connectionList.Perm (c :: n.connectionList) := Table.valuesInsert c absent

theorem unlinkedPerm {n : Net} {c : Connection} (found : n.connections.get? c.id = some c) :
    n.connectionList.Perm (c :: (n.unlinked c).connectionList) := Table.valuesErase found

theorem linkedIndexed {n : Net} (indexed : Indexed n) {c : Connection}
    (absent : n.connections.get? c.id = none) (free : n.feeding.get? c.target = none) :
    Indexed (n.linked c) := by
  have perm := linkedPerm absent
  have fanIn : ((c :: n.connectionList).map Connection.target).Nodup := by
    refine List.nodup_cons.mpr ⟨fun fed => ?_, indexed.fanIn⟩
    obtain ⟨d, member, e⟩ := List.mem_map.mp fed
    have found := (getFeedingOf indexed.fanIn).mpr ⟨d, member, e, rfl⟩
    rw [← indexed.feeding, free] at found
    cases found
  exact
    { connectionKeys := by
        intro id d found
        rw [linked, Table.getInsert] at found
        split at found
        · rename_i same
          cases found
          exact same
        · exact indexed.connectionKeys id d found
      fanIn := (perm.map _).nodup_iff.mpr fanIn
      feeding := by
        rw [feedingPerm perm ((perm.map _).nodup_iff.mpr fanIn), ← feedingMore fanIn,
          ← indexed.feeding]
        rfl
      feeds := by
        rw [feedsPerm perm, ← feedsMore, ← indexed.feeds]
        rfl
      touching := by
        rw [touchingOfPerm perm, ← touchingMore, ← indexed.touching]
        rfl }

theorem unlinkedIndexed {n : Net} (indexed : Indexed n) {c : Connection}
    (member : c ∈ n.connectionList) : Indexed (n.unlinked c) := by
  have found := (memConnections indexed).mp member
  have perm := unlinkedPerm found
  have fanIn : ((c :: (n.unlinked c).connectionList).map Connection.target).Nodup :=
    (perm.map _).nodup_iff.mp indexed.fanIn
  have ids : ((c :: (n.unlinked c).connectionList).map Connection.id).Nodup := by
    rw [← (perm.map _).nodup_iff, connectionIds indexed]
    exact Table.keysNodup _
  exact
    { connectionKeys := by
        intro id d found
        rw [unlinked, Table.getErase] at found
        split at found
        · cases found
        · exact indexed.connectionKeys id d found
      fanIn := (List.nodup_cons.mp fanIn).2
      feeding := by
        rw [← feedingFewer fanIn, ← feedingPerm perm indexed.fanIn, ← indexed.feeding]
        rfl
      feeds := by
        rw [← feedsFewer (List.nodup_cons.mp ids).1, ← feedsPerm perm, ← indexed.feeds]
        rfl
      touching := by
        rw [← touchingFewer (List.nodup_cons.mp fanIn).1, ← touchingOfPerm perm, ← indexed.touching]
        rfl }

theorem memUnlinked {n : Net} (indexed : Indexed n) {c d : Connection}
    (member : c ∈ n.connectionList) :
    d ∈ (n.unlinked c).connectionList ↔ d ∈ n.connectionList ∧ d ≠ c := by
  rw [memConnections (unlinkedIndexed indexed member), memConnections indexed, unlinked,
    Table.getErase]
  split
  · rename_i same
    rw [← same, (memConnections indexed).mp member]
    simp [eq_comm]
  · rename_i other
    exact ⟨fun found => ⟨found, fun e => other (e ▸ rfl)⟩, fun found => found.1⟩

theorem insertConnectionSound {n after : Net} {c : Connection} {changes : Changes}
    (sound : Sound n) (ok : n.insertConnection c = .ok (after, changes)) : Sound after := by
  obtain ⟨⟨source, target, absent, free⟩, e⟩ := insertConnectionIff.mp ok
  cases e
  exact
    { linkedIndexed sound.toIndexed absent free, sound with
      endsExist := by
        intro d member
        rcases List.mem_cons.mp ((linkedPerm absent).mem_iff.mp member) with rfl | member
        · exact ⟨source, target⟩
        · exact sound.endsExist d member }

theorem removeConnectionSound {n : Net} (sound : Sound n) (id : String) :
    Sound (n.removeConnection id).1 := by
  cases found : n.connections.get? id with
  | none => rw [removeConnectionAbsent found]; exact sound
  | some c =>
    rw [removeConnectionFound sound.toIndexed found]
    have member : c ∈ n.connectionList := Table.memValues.mpr ⟨id, found⟩
    exact
      { unlinkedIndexed sound.toIndexed member, sound with
        endsExist := fun d kept =>
          sound.endsExist d ((memUnlinked sound.toIndexed member).mp kept).1 }

theorem setConnectionTypeSound {n : Net} (sound : Sound n) (id : String) (type : ValueType) :
    Sound (n.setConnectionType id type).1 := by
  unfold setConnectionType
  split
  · rename_i c found
    split
    · exact sound
    · obtain ⟨before, after⟩ := Table.valuesReplace { c with type := some type } found
      have targets := (after.map Connection.target).trans (before.map Connection.target).symm
      exact
        { sound with
          connectionKeys := by
            intro k d present
            rw [Table.getInsert] at present
            split at present
            · rename_i same
              cases present
              exact (sound.connectionKeys id c found).trans same
            · exact sound.connectionKeys k d present
          fanIn := targets.nodup_iff.mpr sound.fanIn
          feeding := by
            rw [connectionList, feedingPerm after (targets.nodup_iff.mpr sound.fanIn)]
            exact (sound.feeding.trans (feedingPerm before sound.fanIn)).trans rfl
          feeds := by
            rw [connectionList, feedsPerm after]
            exact (sound.feeds.trans (feedsPerm before)).trans (feedsRetyped c _ _).symm
          touching := by
            rw [connectionList, touchingOfPerm after]
            exact (sound.touching.trans (touchingOfPerm before)).trans (touchingRetyped c _ _).symm
          endsExist := by
            intro d member
            rcases List.mem_cons.mp (after.mem_iff.mp member) with rfl | member
            · exact sound.endsExist c (before.mem_iff.mpr List.mem_cons_self)
            · exact sound.endsExist d (before.mem_iff.mpr (List.mem_cons_of_mem _ member)) }
  · exact sound

/-! Several connections go, and a node with all of its own -/

structure OnlyLinks (n m : Net) : Prop where
  nodes : m.nodes = n.nodes
  order : m.order = n.order
  uniforms : m.uniforms = n.uniforms
  includes : m.includes = n.includes

theorem OnlyLinks.trans {n m k : Net} (first : OnlyLinks n m) (second : OnlyLinks m k) :
    OnlyLinks n k :=
  ⟨second.nodes.trans first.nodes, second.order.trans first.order,
    second.uniforms.trans first.uniforms, second.includes.trans first.includes⟩

theorem removeConnectionOnlyLinks (n : Net) (id : String) :
    OnlyLinks n (n.removeConnection id).1 := by
  unfold removeConnection
  split <;> exact ⟨rfl, rfl, rfl, rfl⟩

theorem removeConnectionGet {n : Net} (indexed : Indexed n) (id k : String) :
    (n.removeConnection id).1.connections.get? k =
      if id = k then none else n.connections.get? k := by
  cases found : n.connections.get? id with
  | none =>
    rw [removeConnectionAbsent found]
    split
    · rename_i same
      exact same ▸ found
    · rfl
  | some c =>
    rw [removeConnectionFound indexed found, ← indexed.connectionKeys id c found]
    exact Table.getErase _ _ _

def removingAlso (r : Net × Changes) (id : String) : Net × Changes :=
  ((r.1.removeConnection id).1, r.2 ++ (r.1.removeConnection id).2)

theorem removeConnectionsFold (n : Net) (ids : List String) :
    n.removeConnections ids = ids.foldl removingAlso (n, .empty) := rfl

theorem removeConnectionsNet (n : Net) (ids : List String) :
    (n.removeConnections ids).1 = ids.foldl (fun n id => (n.removeConnection id).1) n := by
  suffices general : ∀ changes, (ids.foldl removingAlso (n, changes)).1 =
      ids.foldl (fun n id => (n.removeConnection id).1) n from general .empty
  induction ids generalizing n with
  | nil => exact fun _ => rfl
  | cons id rest ih => exact fun changes => ih _ _

theorem removeConnectionsInduct {n : Net} {motive : Net → Changes → Prop} (start : motive n .empty)
    {ids : List String} (step : ∀ id ∈ ids, ∀ net told, motive net told →
      motive (net.removeConnection id).1 (told ++ (net.removeConnection id).2)) :
    motive (n.removeConnections ids).1 (n.removeConnections ids).2 := by
  have general : ∀ (rest : List String) net told, (∀ id ∈ rest, id ∈ ids) → motive net told →
      motive (rest.foldl removingAlso (net, told)).1 (rest.foldl removingAlso (net, told)).2 := by
    intro rest
    induction rest with
    | nil => exact fun _ _ _ reached => reached
    | cons id rest ih =>
      exact fun net told listed reached => ih _ _ (fun k member => listed k (.tail _ member))
        (step id (listed id List.mem_cons_self) net told reached)
  rw [removeConnectionsFold]
  exact general ids n .empty (fun _ member => member) start

theorem removeConnectionsOnlyLinks (n : Net) (ids : List String) :
    OnlyLinks n (n.removeConnections ids).1 :=
  removeConnectionsInduct (motive := fun m _ => OnlyLinks n m) ⟨rfl, rfl, rfl, rfl⟩
    fun id _ m _ frame => frame.trans (removeConnectionOnlyLinks m id)

theorem removeConnectionsSound {n : Net} (sound : Sound n) (ids : List String) :
    Sound (n.removeConnections ids).1 := by
  rw [removeConnectionsNet]
  exact foldlSound (fun _ id sound => removeConnectionSound sound id) sound ids

theorem removeConnectionsGet {n : Net} (sound : Sound n) (ids : List String) (k : String) :
    (n.removeConnections ids).1.connections.get? k =
      if k ∈ ids then none else n.connections.get? k := by
  rw [removeConnectionsNet]
  induction ids generalizing n with
  | nil => simp
  | cons id rest ih =>
    rw [List.foldl_cons, ih (removeConnectionSound sound id), removeConnectionGet sound.toIndexed]
    by_cases first : id = k
    · simp [first]
    · simp [first, Ne.symm first]

def without (n : Net) (id : String) : Net :=
  let cleared := (n.removeConnections ((n.incoming id ++ n.outgoing id).map Connection.id)).1
  { cleared with
    nodes := cleared.nodes.erase id
    order := cleared.order.filter (fun other => other ≠ id)
    touching := cleared.touching.erase id }

theorem removeNodeIff {n : Net} {id : String} {r : Net × Changes} :
    n.removeNode id = .ok r ↔ n.contains id = true ∧
      r = (n.without id, { Changes.empty with invalidated := n.downstreamClosure [id] } ++
        (n.removeConnections ((n.incoming id ++ n.outgoing id).map Connection.id)).2 ++
        { Changes.empty with removedNodes := [id] }) := by
  unfold removeNode
  cases n.contains id
  · simp
  · simp only [if_true, true_and]
    exact ⟨fun ok => (Except.ok.inj ok).symm, fun e => congrArg Except.ok e.symm⟩

theorem memWithout {n : Net} (sound : Sound n) {id : String} {c : Connection} :
    c ∈ (n.without id).connectionList ↔
      c ∈ n.connectionList ∧ c.source.node ≠ id ∧ c.target.node ≠ id := by
  let ids := (n.incoming id ++ n.outgoing id).map Connection.id
  have cleared := removeConnectionsSound sound ids
  have listed : (n.without id).connectionList = (n.removeConnections ids).1.connectionList := rfl
  rw [listed, memConnections cleared.toIndexed, removeConnectionsGet sound]
  constructor
  · intro found
    split at found
    · cases found
    · rename_i kept
      have member := (memConnections sound.toIndexed).mpr found
      exact ⟨member, not_or.mp fun touches => kept ((touchingIds sound.toIndexed member).mpr touches)⟩
  · rintro ⟨member, source, target⟩
    rw [if_neg fun gone => ((touchingIds sound.toIndexed member).mp gone).elim source target]
    exact (memConnections sound.toIndexed).mp member

theorem withoutSound {n : Net} (sound : Sound n) (id : String) : Sound (n.without id) := by
  have cleared := removeConnectionsSound sound ((n.incoming id ++ n.outgoing id).map Connection.id)
  have frame := removeConnectionsOnlyLinks n ((n.incoming id ++ n.outgoing id).map Connection.id)
  have none : (touchingOf (n.without id).connectionList).get? id = none := by
    have untouched : (touchingAt (n.without id).connectionList id).isEmpty = true :=
      touchingEmpty.mpr fun c member => ((memWithout sound).mp member).2
    rw [getTouchingOf, unlessEmpty, Option.filter_some, untouched]
    rfl
  have untouched : (n.without id).touching = touchingOf (n.without id).connectionList :=
    (congrArg (·.erase id) cleared.touching).trans (Table.eraseAbsent none)
  exact
    { cleared with
      touching := untouched
      orderNodup := (cleared.orderNodup).filter _
      orderNodes := by
        intro k
        have before := cleared.orderNodes k
        simp only [without, contains, Table.containsErase, List.mem_filter, decide_eq_true_eq]
        rw [before, and_comm, ne_comm]
        rfl
      nodeKeys := by
        intro k node found
        rw [without, Table.getErase] at found
        split at found
        · cases found
        · exact cleared.nodeKeys k node found
      endsExist := by
        intro c member
        obtain ⟨member, source, target⟩ := (memWithout sound).mp member
        have ends := sound.endsExist c member
        simp only [without, contains, frame.nodes, Table.containsErase]
        exact ⟨⟨source.symm, ends.1⟩, ⟨target.symm, ends.2⟩⟩ }

theorem removeNodeSound {n after : Net} {id : String} {changes : Changes} (sound : Sound n)
    (ok : n.removeNode id = .ok (after, changes)) : Sound after := by
  cases (removeNodeIff.mp ok).2
  exact withoutSound sound id

end ShaderNet.Net

import Mathlib.Data.List.Perm.Subperm
import ShaderNet.Proofs.Net.Sound

/-! Runs of edits. Whatever edits a net has gone through from the empty one, refused ones among them,
its tables hold what their keys promise and its look-ups are those of its connections. -/
namespace ShaderNet.Net
open Number (Double)

inductive Edit where
  | insertNode (node : Node)
  | removeNode (id : String)
  | insertConnection (c : Connection)
  | removeConnection (id : String)
  | setParameter (id name : String) (value : Parameter)
  | moveNode (id : String) (dx dy : Double)
  | patchNode (node : Node)
  | setConnectionType (id : String) (type : ValueType)
  | setUniform (u : Uniform)
  | removeUniform (id : String)
  | addInclude (path : String) (source : Option String)
  | removeInclude (path : String)

def orKeep (n : Net) : Except Failure (Net × Changes) → Net
  | .ok (after, _) => after
  | .error _ => n

def apply (n : Net) : Edit → Net
  | .insertNode node => n.orKeep (n.insertNode node)
  | .removeNode id => n.orKeep (n.removeNode id)
  | .insertConnection c => n.orKeep (n.insertConnection c)
  | .removeConnection id => (n.removeConnection id).1
  | .setParameter id name value => n.orKeep (n.setParameter id name value)
  | .moveNode id dx dy => n.orKeep (n.moveNode id dx dy)
  | .patchNode node => n.orKeep (n.patchNode node)
  | .setConnectionType id type => (n.setConnectionType id type).1
  | .setUniform u => (n.setUniform u).1
  | .removeUniform id => (n.removeUniform id).1
  | .addInclude path source => (n.addInclude path source).1
  | .removeInclude path => (n.removeInclude path).1

def run (n : Net) (edits : List Edit) : Net := edits.foldl apply n

/-! Nodes -/

def inserted (n : Net) (node : Node) : Net :=
  { n with nodes := n.nodes.insert node.id node, order := n.order ++ [node.id] }

theorem insertNodeIff {n : Net} {node : Node} {r : Net × Changes} :
    n.insertNode node = .ok r ↔ n.contains node.id = false ∧
      r = (n.inserted node,
        { Changes.empty with addedNodes := [node], invalidated := KeySet.ofList [node.id] }) := by
  unfold insertNode
  cases n.contains node.id
  · simp [inserted, eq_comm]
  · simp

theorem containsInserted (n : Net) (node : Node) (id : String) :
    (n.inserted node).contains id = true ↔ node.id = id ∨ n.contains id = true :=
  Table.containsInsert

theorem nodeKeysInsert {n : Net} (sound : Sound n) (node : Node) :
    ∀ id found, (n.nodes.insert node.id node).get? id = some found → found.id = id := by
  intro id other found
  rw [Table.getInsert] at found
  split at found
  · rename_i same
    cases found
    exact same
  · exact sound.nodeKeys id other found

theorem insertNodeSound {n after : Net} {node : Node} {changes : Changes} (sound : Sound n)
    (ok : n.insertNode node = .ok (after, changes)) : Sound after := by
  obtain ⟨fresh, e⟩ := insertNodeIff.mp ok
  cases e
  have absent : node.id ∉ n.order := by
    rw [sound.orderNodes, fresh]
    simp
  exact
    { sound with
      orderNodup := List.nodup_append.mpr ⟨sound.orderNodup, List.nodup_singleton _, by
        intro a listed b last
        rw [List.mem_singleton.mp last]
        exact fun e => absent (e ▸ listed)⟩
      orderNodes := by
        intro id
        rw [containsInserted, ← sound.orderNodes, or_comm, eq_comm]
        exact List.mem_append.trans (or_congr_right List.mem_singleton)
      nodeKeys := nodeKeysInsert sound node
      endsExist := by
        intro c member
        obtain ⟨source, target⟩ := sound.endsExist c member
        exact ⟨(containsInserted ..).mpr (.inr source), (containsInserted ..).mpr (.inr target)⟩ }

theorem setNodeSound {n : Net} (sound : Sound n) {node : Node} (present : n.contains node.id = true) :
    Sound (n.setNode node) := by
  have same : ∀ id, (n.setNode node).contains id = true ↔ n.contains id = true := by
    intro id
    refine Table.containsInsert.trans (or_iff_right_of_imp fun e => ?_)
    exact e ▸ present
  exact
    { sound with
      orderNodes := fun id => (sound.orderNodes id).trans (same id).symm
      nodeKeys := nodeKeysInsert sound node
      endsExist := fun c member => ⟨(same _).mpr (sound.endsExist c member).1,
        (same _).mpr (sound.endsExist c member).2⟩ }

theorem nodeFound {n : Net} {id : String} {node : Node} :
    n.node id = .ok node ↔ n.nodes.get? id = some node := by
  unfold Net.node node?
  cases n.nodes.get? id <;> simp

theorem nodePresent {n : Net} (sound : Sound n) {id : String} {node : Node}
    (found : n.node id = .ok node) : node.id = id ∧ n.contains id = true := by
  have found := nodeFound.mp found
  exact ⟨sound.nodeKeys id node found, Table.containsIff.mpr ⟨node, found⟩⟩

/- What an accepted change of one node does. -/

theorem setParameterCases {n after : Net} {id name : String} {value : Parameter} {changes : Changes}
    (ok : n.setParameter id name value = .ok (after, changes)) :
    ∃ node, n.node id = .ok node ∧ (after = n ∧ changes = .empty ∧
        Parameter.sameOption (node.parameters.get? name) (some value) = true ∨
      after = n.setNode { node with parameters := node.parameters.insert name value } ∧
        changes = { Changes.empty with
          modifiedNodes := [id], invalidated := after.downstreamClosure [id] } ∧
        Parameter.sameOption (node.parameters.get? name) (some value) = false) := by
  simp only [setParameter, bind, Except.bind] at ok
  split at ok <;> try contradiction
  rename_i node found
  split at ok <;> rename_i same <;> cases ok
  · exact ⟨node, found, .inl ⟨rfl, rfl, same⟩⟩
  · exact ⟨node, found, .inr ⟨rfl, rfl, eq_false_of_ne_true same⟩⟩

theorem moveNodeCases {n after : Net} {id : String} {dx dy : Double} {changes : Changes}
    (ok : n.moveNode id dx dy = .ok (after, changes)) :
    ∃ node, n.node id = .ok node ∧
      after = n.setNode { node with position := node.position.shift dx dy } ∧
      changes = { Changes.empty with modifiedNodes := [id] } := by
  simp only [moveNode, bind, Except.bind] at ok
  split at ok <;> cases ok
  rename_i node found
  exact ⟨node, found, rfl, rfl⟩

theorem patchNodeCases {n after : Net} {next : Node} {changes : Changes}
    (ok : n.patchNode next = .ok (after, changes)) :
    ∃ node, n.node next.id = .ok node ∧
      (after = n ∧ changes = .empty ∧ node.same next = true ∨ after = n.setNode next ∧
        changes = { Changes.empty with
          modifiedNodes := [next.id]
          invalidated := if node.sameContent next then ∅ else after.downstreamClosure [next.id] } ∧
        node.same next = false) := by
  simp only [patchNode, bind, Except.bind] at ok
  split at ok <;> try contradiction
  rename_i node found
  split at ok <;> rename_i same <;> cases ok
  · exact ⟨node, found, .inl ⟨rfl, rfl, same⟩⟩
  · exact ⟨node, found, .inr ⟨rfl, rfl, eq_false_of_ne_true same⟩⟩

theorem setParameterSound {n after : Net} {id name : String} {value : Parameter} {changes : Changes}
    (sound : Sound n) (ok : n.setParameter id name value = .ok (after, changes)) : Sound after := by
  obtain ⟨node, found, ⟨rfl, _⟩ | ⟨rfl, _⟩⟩ := setParameterCases ok
  · exact sound
  · obtain ⟨rfl, present⟩ := nodePresent sound found
    exact setNodeSound sound present

theorem moveNodeSound {n after : Net} {id : String} {dx dy : Double} {changes : Changes}
    (sound : Sound n) (ok : n.moveNode id dx dy = .ok (after, changes)) : Sound after := by
  obtain ⟨node, found, rfl, _⟩ := moveNodeCases ok
  obtain ⟨rfl, present⟩ := nodePresent sound found
  exact setNodeSound sound present

theorem patchNodeSound {n after : Net} {next : Node} {changes : Changes} (sound : Sound n)
    (ok : n.patchNode next = .ok (after, changes)) : Sound after := by
  obtain ⟨node, found, ⟨rfl, _⟩ | ⟨rfl, _⟩⟩ := patchNodeCases ok
  · exact sound
  · exact setNodeSound sound (nodePresent sound found).2

/-! Uniforms and includes -/

theorem setUniformSound {n : Net} (sound : Sound n) (u : Uniform) : Sound (n.setUniform u).1 := by
  unfold setUniform
  split
  · exact sound
  · refine { sound with uniformKeys := fun id v found => ?_ }
    rw [Table.getInsert] at found
    split at found
    · rename_i same
      cases found
      exact same
    · exact sound.uniformKeys id v found

theorem removeUniformNet (n : Net) (id : String) :
    (n.removeUniform id).1 = { n with uniforms := n.uniforms.erase id } := by
  unfold removeUniform
  split
  · rfl
  · rename_i absent
    rw [Table.eraseAbsent (Table.containsFalse.mp (Bool.not_eq_true _ ▸ absent))]

theorem removeUniformSound {n : Net} (sound : Sound n) (id : String) :
    Sound (n.removeUniform id).1 := by
  rw [removeUniformNet]
  refine { sound with uniformKeys := fun k u found => ?_ }
  rw [Table.getErase] at found
  split at found
  · cases found
  · exact sound.uniformKeys k u found

theorem replaceSourcePaths (path : String) (source : Option String) (includes : List Include) :
    (replaceSource path source includes).map Include.path = includes.map Include.path := by
  induction includes with
  | nil => rfl
  | cons i rest ih =>
    rw [replaceSource]
    split
    · rfl
    · rw [List.map_cons, List.map_cons, ih]

theorem includesIff {n : Net} {path : String} :
    n.includes? path = true ↔ path ∈ n.includes.map Include.path := by
  simp [includes?]

def included (path : String) (source : Option String) (includes : List Include) : List Include :=
  if includes.any (fun i => i.path = path) then replaceSource path source includes
  else includes ++ [⟨path, source⟩]

theorem addIncludeNet (n : Net) (path : String) (source : Option String) :
    (n.addInclude path source).1 = { n with includes := included path source n.includes } := by
  unfold addInclude included includes?
  split <;> rfl

theorem removeIncludeNet (n : Net) (path : String) :
    (n.removeInclude path).1 =
      { n with includes := n.includes.filter fun i => i.path ≠ path } := by
  unfold removeInclude
  split
  · rfl
  · rename_i absent
    have all : n.includes.filter (fun i => i.path ≠ path) = n.includes := by
      refine List.filter_eq_self.mpr fun i member => ?_
      have other : i.path ≠ path := fun e =>
        absent (includesIff.mpr (List.mem_map.mpr ⟨i, member, e⟩))
      simpa using other
    rw [all]

theorem addIncludeSound {n : Net} (sound : Sound n) (path : String) (source : Option String) :
    Sound (n.addInclude path source).1 := by
  unfold addInclude
  split
  · exact { sound with
      includePaths := by
        rw [replaceSourcePaths]
        exact sound.includePaths }
  · rename_i absent
    refine { sound with includePaths := ?_ }
    rw [List.map_append, List.nodup_append]
    refine ⟨sound.includePaths, List.nodup_singleton _, ?_⟩
    intro other listed new last e
    have same : other = path := e.trans (List.mem_singleton.mp last)
    exact absent (includesIff.mpr (same ▸ listed))

theorem removeIncludeSound {n : Net} (sound : Sound n) (path : String) :
    Sound (n.removeInclude path).1 := by
  rw [removeIncludeNet]
  exact { sound with includePaths := sound.includePaths.sublist (List.filter_sublist.map _) }

/-! Runs -/

theorem orKeepSound {n : Net} (sound : Sound n) {r : Except Failure (Net × Changes)}
    (accepted : ∀ after changes, r = .ok (after, changes) → Sound after) : Sound (n.orKeep r) := by
  cases r with
  | error e => exact sound
  | ok r => exact accepted r.1 r.2 rfl

theorem applySound {n : Net} (sound : Sound n) (edit : Edit) : Sound (n.apply edit) := by
  cases edit with
  | insertNode node => exact orKeepSound sound fun _ _ => insertNodeSound sound
  | removeNode id => exact orKeepSound sound fun _ _ => removeNodeSound sound
  | insertConnection c => exact orKeepSound sound fun _ _ => insertConnectionSound sound
  | removeConnection id => exact removeConnectionSound sound id
  | setParameter id name value => exact orKeepSound sound fun _ _ => setParameterSound sound
  | moveNode id dx dy => exact orKeepSound sound fun _ _ => moveNodeSound sound
  | patchNode node => exact orKeepSound sound fun _ _ => patchNodeSound sound
  | setConnectionType id type => exact setConnectionTypeSound sound id type
  | setUniform u => exact setUniformSound sound u
  | removeUniform id => exact removeUniformSound sound id
  | addInclude path source => exact addIncludeSound sound path source
  | removeInclude path => exact removeIncludeSound sound path

theorem runSound {n : Net} (sound : Sound n) (edits : List Edit) : Sound (n.run edits) :=
  foldlSound (fun _ edit sound => applySound sound edit) sound edits

/-! Connections at a node -/

theorem keysAscending {α : Type} (t : Table String α) : t.keys.Pairwise (· < ·) :=
  List.pairwise_map.mpr t.ascending

theorem incomingAscending {n : Net} (indexed : Indexed n) (id : String) :
    (n.incoming id).Pairwise fun c d => c.target.name < d.target.name := by
  unfold incoming
  split
  · refine (keysAscending _).filterMap _ fun name name' before c found d found' => ?_
    rw [((feederIff indexed).mp found).2, ((feederIff indexed).mp found').2]
    exact before
  · exact .nil

theorem fedByAscending {n : Net} (indexed : Indexed n) (output : Socket) :
    (n.fedBy output).Pairwise fun c d => c.id < d.id := by
  unfold fedBy
  split
  · refine (keysAscending _).filterMap _ fun id id' before c found d found' => ?_
    rw [indexed.connectionKeys id c found, indexed.connectionKeys id' d found']
    exact before
  · exact .nil

def leavesBefore (c d : Connection) : Prop :=
  c.source.name < d.source.name ∨ c.source.name = d.source.name ∧ c.id < d.id

theorem outgoingAscending {n : Net} (indexed : Indexed n) (id : String) :
    (n.outgoing id).Pairwise leavesBefore := by
  unfold outgoing
  split
  · refine List.pairwise_flatMap.mpr ⟨fun name _ => ?_, ?_⟩
    · refine (fedByAscending indexed _).imp_of_mem fun left right before => .inr ⟨?_, before⟩
      rw [((memFedBy indexed).mp left).2, ((memFedBy indexed).mp right).2]
    · refine (keysAscending _).imp fun before c left d right => .inl ?_
      rw [((memFedBy indexed).mp left).2, ((memFedBy indexed).mp right).2]
      exact before
  · exact .nil

theorem connectionsNodup {n : Net} (indexed : Indexed n) : n.connectionList.Nodup :=
  .of_map _ indexed.fanIn

theorem incomingPerm {n : Net} (indexed : Indexed n) (id : String) :
    (n.incoming id).Perm (n.connectionList.filter fun c => c.target.node = id) := by
  have nodup : (n.incoming id).Nodup := (incomingAscending indexed id).imp fun before e => by
    subst e
    exact StrictTotal.irrefl _ before
  refine (List.perm_ext_iff_of_nodup nodup ((connectionsNodup indexed).filter _)).mpr fun c => ?_
  simp [memIncoming indexed]

theorem outgoingPerm {n : Net} (indexed : Indexed n) (id : String) :
    (n.outgoing id).Perm (n.connectionList.filter fun c => c.source.node = id) := by
  have nodup : (n.outgoing id).Nodup := (outgoingAscending indexed id).imp fun before e => by
    subst e
    rcases before with before | ⟨_, before⟩ <;> exact StrictTotal.irrefl _ before
  refine (List.perm_ext_iff_of_nodup nodup ((connectionsNodup indexed).filter _)).mpr fun c => ?_
  simp [memOutgoing indexed]

def Counted (n : Net) : Prop :=
  ∀ c ∈ n.connectionList, ∃ t k, n.touching.get? c.source.node = some t ∧
    t.outputs.get? c.source.name = some (k + 1)

theorem soundCounted {n : Net} (sound : Sound n) : Counted n := by
  intro c member
  have used : uses n.connectionList c.source ≠ 0 := fun zero => usesZero.mp zero c member rfl
  obtain ⟨k, more⟩ := Nat.exists_eq_succ_of_ne_zero used
  refine ⟨_, k, touchingFound sound.toIndexed member (.inl rfl), ?_⟩
  rw [getOutputs, positive, if_neg used, more]

theorem representation (edits : List Edit) :
    let n := empty.run edits
    Sound n ∧ (∀ ids, Counted (n.removeConnections ids).1) ∧
    ∀ id, (n.incoming id).Perm (n.connectionList.filter fun c => c.target.node = id) ∧
      (n.incoming id).Pairwise (fun c d => c.target.name < d.target.name) ∧
      (n.outgoing id).Perm (n.connectionList.filter fun c => c.source.node = id) ∧
      (n.outgoing id).Pairwise leavesBefore := by
  have sound : Sound (empty.run edits) := runSound emptySound edits
  have indexed := sound.toIndexed
  exact ⟨sound, fun ids => soundCounted (removeConnectionsSound sound ids),
    fun id => ⟨incomingPerm indexed id, incomingAscending indexed id, outgoingPerm indexed id,
      outgoingAscending indexed id⟩⟩

end ShaderNet.Net

import ShaderNet.Proofs.Evaluate.Invalidated

/-! Nets whose edits can be trusted to tell what they affect. Two connections with one identifier would
be taken for each other, a node that names no uniform reads the one without a name, and the two zeros
are told apart by nothing but their texts; unambiguous nets have none of these. -/
namespace ShaderNet.Net
open Number (Double)

def Listed (used : List Connection) (c : Connection) : Prop :=
  ∃ d ∈ used, d.source = c.source ∧ d.target = c.target

/-- No two connections with different ends share an identifier. -/
def Apart (used : List Connection) : Prop :=
  ∀ c ∈ used, ∀ d ∈ used, c.id = d.id → c.source = d.source ∧ c.target = d.target

instance (used : List Connection) : Decidable (Apart used) :=
  inferInstanceAs (Decidable (∀ c ∈ used, ∀ d ∈ used, c.id = d.id →
    c.source = d.source ∧ c.target = d.target))

theorem idOfEnds {c d : Connection} (source : c.source = d.source) (target : c.target = d.target) :
    c.id = d.id := by
  rw [Connection.id, Connection.id, source, target]

theorem apartListed {used : List Connection} (apart : Apart used) {c d : Connection}
    (left : Listed used c) (right : Listed used d) (same : c.id = d.id) : c.target = d.target := by
  obtain ⟨c', member, source, target⟩ := left
  obtain ⟨d', member', source', target'⟩ := right
  have ids := (idOfEnds source target).trans (same.trans (idOfEnds source' target').symm)
  rw [← target, ← target']
  exact (apart c' member d' member' ids).2

structure Unambiguous (used : List Connection) (n : Net) : Prop extends Sound n where
  listed : ∀ c ∈ n.connectionList, Listed used c
  unnamed : n.uniforms.get? "" = none
  plain : ∀ id node, n.nodes.get? id = some node → node.hasNegativeZero = false

theorem emptyUnambiguous (used : List Connection) : Unambiguous used empty where
  toSound := emptySound
  listed _ member := nomatch member
  unnamed := rfl
  plain _ _ found := nomatch found

structure Edited (used : List Connection) (n after : Net) (changes : Changes) : Prop where
  unambiguous : Unambiguous used after
  includes : after.includes = n.includes
  stable : ∀ exports, Scene.Stable ⟨n, .standard, exports⟩ ⟨after, .standard, exports⟩ changes.invalidated

section Edits

variable {used : List Connection} {n after : Net} {changes : Changes}

theorem editedNothing (unambiguous : Unambiguous used n) (changes : Changes) : Edited used n n changes :=
  ⟨unambiguous, rfl, fun _ => Scene.stableRefl _ _⟩

theorem Edited.append {m k : Net} {c d : Changes} (first : Edited used n m c)
    (second : Edited used m k d) : Edited used n k (c ++ d) :=
  ⟨second.unambiguous, second.includes.trans first.includes,
    fun x => Scene.stableAppend (first.stable x) (second.stable x)⟩

/-! Nodes -/

theorem plainInsert {nodes : Table String Node} {node : Node} (also : node.hasNegativeZero = false)
    (plain : ∀ id m, nodes.get? id = some m → m.hasNegativeZero = false) :
    ∀ id m, (nodes.insert node.id node).get? id = some m → m.hasNegativeZero = false := by
  intro id m found
  rw [Table.getInsert] at found
  split at found
  · cases found
    exact also
  · exact plain id m found

theorem insertNodeEdited (unambiguous : Unambiguous used n) {node : Node} (also : node.hasNegativeZero = false)
    (ok : n.insertNode node = .ok (after, changes)) : Edited used n after changes := by
  refine ⟨?_, ?_, fun _ => Scene.insertNodeStable unambiguous.toSound ok⟩
  · have sound := insertNodeSound unambiguous.toSound ok
    cases (insertNodeIff.mp ok).2
    exact ⟨sound, unambiguous.listed, unambiguous.unnamed, plainInsert also unambiguous.plain⟩
  · cases (insertNodeIff.mp ok).2
    rfl

theorem removeNodeEdited (unambiguous : Unambiguous used n) {id : String}
    (ok : n.removeNode id = .ok (after, changes)) : Edited used n after changes := by
  have stable := fun x => Scene.removeNodeStable (p := .standard) (x := x) unambiguous.toSound ok
  cases (removeNodeIff.mp ok).2
  have frame := removeConnectionsOnlyLinks n ((n.incoming id ++ n.outgoing id).map Connection.id)
  refine ⟨⟨withoutSound unambiguous.toSound id, ?_, ?_, ?_⟩, frame.includes, stable⟩
  · exact fun c member => unambiguous.listed c ((memWithout unambiguous.toSound).mp member).1
  · exact (congrArg (Table.get? · "") frame.uniforms).trans unambiguous.unnamed
  · intro k node found
    rw [without, Table.getErase] at found
    split at found
    · cases found
    · exact unambiguous.plain k node (frame.nodes ▸ found)

theorem setNodeUnambiguous (unambiguous : Unambiguous used n) {node : Node}
    (present : n.contains node.id = true)
    (also : node.hasNegativeZero = false) : Unambiguous used (n.setNode node) :=
  ⟨setNodeSound unambiguous.toSound present, unambiguous.listed, unambiguous.unnamed,
    plainInsert also unambiguous.plain⟩

theorem plainParameters {node : Node} (plain : node.hasNegativeZero = false) {value : Parameter}
    (also : value.hasNegativeZero = false) (name : String) :
    Node.hasNegativeZero { node with parameters := node.parameters.insert name value } = false := by
  refine List.any_eq_false.mpr fun p member => Bool.not_eq_true _ ▸ ?_
  obtain ⟨k, found⟩ := Table.memValues.mp member
  rw [Table.getInsert] at found
  split at found
  · cases found
    exact also
  · exact Node.plainParameter plain found

theorem setParameterEdited (unambiguous : Unambiguous used n) {id name : String} {value : Parameter}
    (also : value.hasNegativeZero = false) (ok : n.setParameter id name value = .ok (after, changes)) :
    Edited used n after changes := by
  have stable := fun x => Scene.setParameterStable (p := .standard) (x := x) unambiguous.toSound ok
  obtain ⟨node, found, ⟨rfl, _⟩ | ⟨rfl, _⟩⟩ := setParameterCases ok
  · exact editedNothing unambiguous _
  · obtain ⟨rfl, present⟩ := nodePresent unambiguous.toSound found
    refine ⟨setNodeUnambiguous unambiguous present ?_, rfl, stable⟩
    exact plainParameters (unambiguous.plain _ node (nodeFound.mp found)) also name

theorem moveNodeEdited (unambiguous : Unambiguous used n) {id : String} {dx dy : Double}
    (ok : n.moveNode id dx dy = .ok (after, changes)) : Edited used n after changes := by
  have stable := fun x => Scene.moveNodeStable (p := .standard) (x := x) unambiguous.toSound ok
  obtain ⟨node, found, rfl, _⟩ := moveNodeCases ok
  obtain ⟨rfl, present⟩ := nodePresent unambiguous.toSound found
  exact ⟨setNodeUnambiguous unambiguous present (unambiguous.plain _ node (nodeFound.mp found)), rfl, stable⟩

theorem patchNodeEdited (unambiguous : Unambiguous used n) {node : Node} (also : node.hasNegativeZero = false)
    (ok : n.patchNode node = .ok (after, changes)) : Edited used n after changes := by
  have stable := fun x =>
    Scene.patchNodeStable (p := .standard) (x := x) unambiguous.toSound unambiguous.plain also ok
  obtain ⟨m, found, ⟨rfl, _⟩ | ⟨rfl, _⟩⟩ := patchNodeCases ok
  · exact editedNothing unambiguous _
  · exact ⟨setNodeUnambiguous unambiguous (nodePresent unambiguous.toSound found).2 also, rfl, stable⟩

/-! Connections -/

theorem removeConnectionEdited (unambiguous : Unambiguous used n) (id : String) :
    Edited used n (n.removeConnection id).1 (n.removeConnection id).2 := by
  have sound := removeConnectionSound unambiguous.toSound id
  have frame := removeConnectionOnlyLinks n id
  refine ⟨⟨sound, ?_, ?_, ?_⟩, frame.includes, fun _ => Scene.removeConnectionStable unambiguous.toSound id⟩
  · intro c member
    have found := (memConnections sound.toIndexed).mp member
    rw [removeConnectionGet unambiguous.toIndexed] at found
    split at found
    · cases found
    · exact unambiguous.listed c ((memConnections unambiguous.toIndexed).mpr found)
  · exact frame.uniforms ▸ unambiguous.unnamed
  · exact frame.nodes ▸ unambiguous.plain

theorem insertConnectionEdited (unambiguous : Unambiguous used n) {c : Connection} (listed : Listed used c)
    (ok : n.insertConnection c = .ok (after, changes)) : Edited used n after changes := by
  have sound := insertConnectionSound unambiguous.toSound ok
  have stable := fun x => Scene.insertConnectionStable (p := .standard) (x := x) unambiguous.toSound ok
  obtain ⟨⟨_, _, absent, _⟩, e⟩ := insertConnectionIff.mp ok
  cases e
  refine ⟨⟨sound, fun d member => ?_, unambiguous.unnamed, unambiguous.plain⟩, rfl, stable⟩
  rcases List.mem_cons.mp ((linkedPerm absent).mem_iff.mp member) with rfl | member
  · exact listed
  · exact unambiguous.listed d member

theorem setConnectionTypeOnlyLinks (n : Net) (id : String) (type : ValueType) :
    OnlyLinks n (n.setConnectionType id type).1 := by
  unfold setConnectionType
  split
  · split <;> exact ⟨rfl, rfl, rfl, rfl⟩
  · exact ⟨rfl, rfl, rfl, rfl⟩

theorem setConnectionTypeListed (unambiguous : Unambiguous used n) {id : String} {type : ValueType}
    {c : Connection}
    (member : c ∈ (n.setConnectionType id type).1.connectionList) : Listed used c := by
  unfold setConnectionType at member
  split at member
  · rename_i d found
    split at member
    · exact unambiguous.listed c member
    · obtain ⟨k, found'⟩ := Table.memValues.mp member
      rw [Table.getInsert] at found'
      split at found'
      · cases found'
        exact unambiguous.listed d (Table.memValues.mpr ⟨id, found⟩)
      · exact unambiguous.listed c (Table.memValues.mpr ⟨k, found'⟩)
  · exact unambiguous.listed c member

theorem setConnectionTypeEdited (unambiguous : Unambiguous used n) (id : String) (type : ValueType) :
    Edited used n (n.setConnectionType id type).1 .empty := by
  have frame := setConnectionTypeOnlyLinks n id type
  refine ⟨⟨setConnectionTypeSound unambiguous.toSound id type,
    fun _ => setConnectionTypeListed unambiguous, ?_, ?_⟩,
    frame.includes, fun _ => Scene.setConnectionTypeStable unambiguous.toSound id type⟩
  · exact frame.uniforms ▸ unambiguous.unnamed
  · exact frame.nodes ▸ unambiguous.plain

/- What becomes of an attempt to connect. -/
theorem connectCases (n : Net) (c : Connection) :
    (∃ e, n.connect c = (.error e, n)) ∨
    (∃ after added, n.insertConnection c = .ok (after, added) ∧
      n.connect c = (.ok added, after)) ∨
    ∃ old, n.feeder? c.target = some old ∧ old.id ≠ c.id ∧
      (n.contains c.source.node = true ∧ n.contains c.target.node = true) ∧
      ((∃ after added, (n.removeConnection old.id).1.insertConnection c = .ok (after, added) ∧
        n.connect c = (.ok ((n.removeConnection old.id).2 ++ added), after)) ∨
      ∃ e, (n.removeConnection old.id).1.insertConnection c = .error e ∧
        n.connect c = (.error e, (n.removeConnection old.id).1)) := by
  unfold connect
  split
  · exact .inl ⟨_, rfl⟩
  · exact .inl ⟨_, rfl⟩
  · rename_i source target
    split
    · cases tried : n.insertConnection c with
      | error e => exact .inl ⟨e, rfl⟩
      | ok r => exact .inr (.inl ⟨r.1, r.2, rfl, rfl⟩)
    · rename_i old fed
      split
      · exact .inl ⟨_, rfl⟩
      · rename_i different
        refine .inr (.inr ⟨old, fed, different, ⟨Table.containsIff.mpr ⟨_, nodeFound.mp source⟩,
          Table.containsIff.mpr ⟨_, nodeFound.mp target⟩⟩, ?_⟩)
        cases tried : (n.removeConnection old.id).1.insertConnection c with
        | error e => exact .inr ⟨e, rfl, by simp only [tried]⟩
        | ok r => exact .inl ⟨r.1, r.2, rfl, by simp only [tried]⟩

/- Once the input is cleared, only a connection that has the identifier of the new one and another
target is in its way. -/
theorem insertCleared (indexed : Indexed n) {c old : Connection}
    (fed : n.feeder? c.target = some old) (different : old.id ≠ c.id)
    (ends : n.contains c.source.node = true ∧ n.contains c.target.node = true) :
    (∃ r, (n.removeConnection old.id).1.insertConnection c = .ok r) ∨
      ∃ d ∈ n.connectionList, d.id = c.id ∧ d.target ≠ c.target := by
  obtain ⟨member, target⟩ := (feederIff indexed).mp fed
  have frame := removeConnectionOnlyLinks n old.id
  cases found : n.connections.get? c.id with
  | some d =>
    have present : d ∈ n.connectionList := Table.memValues.mpr ⟨_, found⟩
    have same := indexed.connectionKeys _ d found
    refine .inr ⟨d, present, same, fun also => ?_⟩
    rw [(feederIff indexed).mpr ⟨present, also⟩] at fed
    cases fed
    exact different same
  | none =>
    refine .inl ⟨_, insertConnectionIff.mpr ⟨⟨?_, ?_, ?_, ?_⟩, rfl⟩⟩
    · rw [contains, frame.nodes]
      exact ends.1
    · rw [contains, frame.nodes]
      exact ends.2
    · rw [removeConnectionGet indexed, if_neg different, found]
    · rw [removeConnectionFound indexed ((memConnections indexed).mp member)]
      exact (Table.getErase ..).trans (if_pos target)

theorem connectCleared (indexed : Indexed n) (known : ∀ d ∈ n.connectionList, Listed used d)
    (apart : Apart used) {c old : Connection} (listed : Listed used c)
    (fed : n.feeder? c.target = some old) (different : old.id ≠ c.id)
    (ends : n.contains c.source.node = true ∧ n.contains c.target.node = true) :
    ∃ r, (n.removeConnection old.id).1.insertConnection c = .ok r := by
  rcases insertCleared indexed fed different ends with fits | ⟨d, present, same, other⟩
  · exact fits
  · exact absurd (apartListed apart (known d present) listed same) other

/- So a refused connection leaves the net alone. -/
theorem connectRefused (indexed : Indexed n) (known : ∀ d ∈ n.connectionList, Listed used d)
    (apart : Apart used) {c : Connection} (listed : Listed used c) {e : Failure}
    (done : n.connect c = (.error e, after)) : after = n := by
  rcases connectCases n c with
    ⟨e, refused⟩ | ⟨m, added, _, accepted⟩ | ⟨old, fed, different, ends, replaced⟩
  · cases refused.symm.trans done
    rfl
  · cases accepted.symm.trans done
  · obtain ⟨r, ok⟩ := connectCleared indexed known apart listed fed different ends
    rcases replaced with ⟨m, added, _, accepted⟩ | ⟨e, failed, _⟩
    · cases accepted.symm.trans done
    · rw [ok] at failed
      cases failed

theorem connectEdited (unambiguous : Unambiguous used n) (apart : Apart used) {c : Connection}
    (listed : Listed used c) {result} (done : n.connect c = (result, after)) :
    match result with
    | .ok changes => Edited used n after changes
    | .error _ => after = n := by
  cases result with
  | error e => exact connectRefused unambiguous.toIndexed unambiguous.listed apart listed done
  | ok changes =>
    rcases connectCases n c with
      ⟨e, refused⟩ | ⟨m, added, ok, accepted⟩ | ⟨old, _, _, _, replaced⟩
    · cases refused.symm.trans done
    · cases accepted.symm.trans done
      exact insertConnectionEdited unambiguous listed ok
    · rcases replaced with ⟨m, added, ok, accepted⟩ | ⟨e, _, refused⟩
      · cases accepted.symm.trans done
        have cleared := removeConnectionEdited unambiguous old.id
        exact cleared.append (insertConnectionEdited cleared.unambiguous listed ok)
      · cases refused.symm.trans done

end Edits
end ShaderNet.Net

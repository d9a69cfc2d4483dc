import ShaderNet.Proofs.Evaluate.Invalidated
import ShaderNet.Proofs.Sameness

/-! What becomes of nodes that edits do not tell of. They stay where they are, with their sources, and
they are patched at most to what compares as the same content. -/
namespace ShaderNet

namespace Node

variable {a b c : Node} {patches : Node → Prop}

theorem sameContentTrans (first : a.sameContent b = true) (second : b.sameContent c = true) :
    a.sameContent c = true := by
  simp only [sameContent, Bool.and_eq_true, decide_eq_true_eq] at first second ⊢
  refine ⟨first.1.trans second.1, Table.agreesIff.mpr fun name => ?_⟩
  have left := Table.agreesIff.mp first.2 name
  have right := Table.agreesIff.mp second.2 name
  generalize a.parameters.get? name = p, b.parameters.get? name = q, c.parameters.get? name = r
    at left right ⊢
  cases left with
  | none => exact right
  | some same =>
    cases right with
    | some same' => exact .some (Parameter.sameTrans same same')

def Becomes (patches : Node → Prop) (a b : Node) : Prop :=
  b = a ∨ a.sameContent b = true ∧ patches b

theorem Becomes.trans (first : a.Becomes patches b) (second : b.Becomes patches c) :
    a.Becomes patches c := by
  rcases second with rfl | ⟨content, patched⟩
  · exact first
  · rcases first with rfl | ⟨content', _⟩
    · exact .inr ⟨content, patched⟩
    · exact .inr ⟨sameContentTrans content' content, patched⟩

theorem Becomes.type (becomes : a.Becomes patches b) : b.type = a.type := by
  rcases becomes with rfl | ⟨content, _⟩
  · rfl
  · simp only [sameContent, Bool.and_eq_true, decide_eq_true_eq] at content
    exact content.1.symm

/- Texts are the same only if they are equal. -/
theorem Becomes.text (becomes : a.Becomes patches b) (name : String) :
    (b.parameters.get? name).bind Parameter.text? = (a.parameters.get? name).bind Parameter.text? := by
  rcases becomes with rfl | ⟨content, _⟩
  · rfl
  · simp only [sameContent, Bool.and_eq_true, decide_eq_true_eq] at content
    rcases Table.related content.2 name with ⟨left, right⟩ | ⟨p, q, left, right, same⟩
    · rw [left, right]
    · rw [left, right]
      cases p <;> cases q <;> simp only [Parameter.same, Bool.false_eq_true, decide_eq_true_eq] at same
      all_goals first | rfl | rw [same]

end Node

namespace Net

variable {patches : Node → Prop} {n m after : Net} {invalidated : KeySet String} {c d changes : Changes}

/-- Outside of the nodes that are told of, nodes are the same or patched to the same content, they take
their inputs from the same outputs, and none of them names a uniform that has changed. -/
structure Traced (patches : Node → Prop) (n after : Net) (invalidated : KeySet String) : Prop where
  sound : after.Sound
  closed : after.Closed invalidated
  nodes : ∀ id, invalidated.contains id = false →
    Option.Rel (Node.Becomes patches) (n.nodes.get? id) (after.nodes.get? id)
  sources : ∀ id, invalidated.contains id = false → ∀ name,
    (after.feeder? ⟨id, name⟩).map Connection.source = (n.feeder? ⟨id, name⟩).map Connection.source
  uniforms : ∀ id, n.uniforms.get? id ≠ after.uniforms.get? id → ∀ k a, invalidated.contains k = false →
    n.nodes.get? k = some a → a.type = "custom_uniform" →
    (a.parameters.get? "uniform").bind Parameter.text? ≠ some id

theorem becomesRefl (node : Option Node) : Option.Rel (Node.Becomes patches) node node := by
  cases node with
  | none => exact .none
  | some a => exact .some (.inl rfl)

theorem becomesTrans {a b c : Option Node} (first : Option.Rel (Node.Becomes patches) a b)
    (second : Option.Rel (Node.Becomes patches) b c) : Option.Rel (Node.Becomes patches) a c := by
  cases first with
  | none => exact second
  | some becomes =>
    cases second with
    | some becomes' => exact .some (becomes.trans becomes')

theorem Traced.becomes (traced : Traced patches n after invalidated) {id : String} {a : Node}
    (safe : invalidated.contains id = false) (found : n.nodes.get? id = some a) :
    ∃ b, after.nodes.get? id = some b ∧ a.Becomes patches b := by
  have related := traced.nodes id safe
  rw [found] at related
  generalize after.nodes.get? id = node at related ⊢
  cases related with
  | some becomes => exact ⟨_, rfl, becomes⟩

/- A connection that is there now feeds its input from the output that fed it before. -/
theorem Traced.fed (traced : Traced patches n after invalidated) (sound : n.Sound) {c : Connection}
    (member : c ∈ after.connectionList) (safe : invalidated.contains c.target.node = false) :
    ∃ d ∈ n.connectionList, d.source = c.source ∧ d.target = c.target := by
  have fed := (feederIff traced.sound.toIndexed).mpr ⟨member, rfl⟩
  have sources := traced.sources _ safe c.target.name
  rw [fed] at sources
  obtain ⟨d, fed', same⟩ := Option.map_eq_some_iff.mp sources.symm
  obtain ⟨member', target⟩ := (feederIff sound.toIndexed).mp fed'
  exact ⟨d, member', same, target⟩

theorem Traced.append (first : Traced patches n m c.invalidated)
    (second : Traced patches m after d.invalidated) :
    Traced patches n after (c ++ d).invalidated := by
  refine ⟨second.sound, fun link member start => ?_, fun id safe => ?_, fun id safe name => ?_,
    fun id changed k a safe found type => ?_⟩
  · refine Bool.not_eq_false _ ▸ fun outside => ?_
    obtain ⟨outside, outside'⟩ := Changes.invalidatedAppendFalse.mp outside
    rcases Changes.invalidatedAppend.mp start with begun | begun
    · obtain ⟨link', member', source, target⟩ := second.fed first.sound member outside'
      have reached := first.closed link' member' (by rw [source]; exact begun)
      rw [target, outside] at reached
      cases reached
    · rw [second.closed link member begun] at outside'
      cases outside'
  · obtain ⟨safe, safe'⟩ := Changes.invalidatedAppendFalse.mp safe
    exact becomesTrans (first.nodes id safe) (second.nodes id safe')
  · obtain ⟨safe, safe'⟩ := Changes.invalidatedAppendFalse.mp safe
    exact (second.sources id safe' name).trans (first.sources id safe name)
  · obtain ⟨safe, safe'⟩ := Changes.invalidatedAppendFalse.mp safe
    by_cases same : n.uniforms.get? id = m.uniforms.get? id
    · obtain ⟨b, found', becomes⟩ := first.becomes safe found
      rw [← becomes.text]
      exact second.uniforms id (same ▸ changed) k b safe' found' (becomes.type.trans type)
    · exact first.uniforms id same k a safe found type

/- Edits of nodes that leave connections alone. -/
theorem tracedNodes (sound' : after.Sound) (feeders : after.feeder? = n.feeder?)
    (uniforms : after.uniforms = n.uniforms) (closed : after.Closed invalidated)
    (nodes : ∀ id, invalidated.contains id = false →
      Option.Rel (Node.Becomes patches) (n.nodes.get? id) (after.nodes.get? id)) :
    Traced patches n after invalidated :=
  ⟨sound', closed, nodes, fun _ _ _ => feeders ▸ rfl, fun _ changed => absurd (uniforms ▸ rfl) changed⟩

theorem Traced.erased (traced : Traced patches n m invalidated) {id : String}
    (gone : invalidated.contains id = true) (sound : after.Sound) (nodes : after.nodes = m.nodes.erase id)
    (links : after.connectionList = m.connectionList) (feeders : after.feeder? = m.feeder?)
    (uniforms : after.uniforms = m.uniforms) : Traced patches n after invalidated := by
  refine ⟨sound, fun c member => traced.closed c (links ▸ member), fun k safe => ?_,
    fun k safe name => feeders ▸ traced.sources k safe name, fun k => uniforms ▸ traced.uniforms k⟩
  have other : id ≠ k := fun same => by
    rw [← same, gone] at safe
    cases safe
  rw [nodes, Table.getErase, if_neg other]
  exact traced.nodes k safe

section Edits

variable (sound : n.Sound)
include sound

theorem tracedSame (closed : n.Closed invalidated) : Traced patches n n invalidated :=
  ⟨sound, closed, fun _ _ => becomesRefl _, fun _ _ _ => rfl, fun _ changed => absurd rfl changed⟩

theorem tracedNothing (untold : invalidated = ∅) : Traced patches n n invalidated :=
  tracedSame sound (untold ▸ fun _ _ impossible => by cases impossible)

/- Edits of connections. -/
theorem tracedLinks (sound' : after.Sound) (nodes : after.nodes = n.nodes)
    (uniforms : after.uniforms = n.uniforms) (closed : after.Closed invalidated)
    (same : ∀ c, invalidated.contains c.target.node = false →
      (c ∈ after.connectionList ↔ c ∈ n.connectionList)) : Traced patches n after invalidated := by
  refine ⟨sound', closed, fun id _ => nodes ▸ becomesRefl _, fun id safe name => congrArg _ ?_,
    fun id changed => absurd (uniforms ▸ rfl) changed⟩
  refine Scene.feederCongr sound.toIndexed sound'.toIndexed fun c ends => same c ?_
  rw [ends]
  exact safe

theorem removeConnectionTraced (id : String) :
    Traced patches n (n.removeConnection id).1 (n.removeConnection id).2.invalidated := by
  have sound' := removeConnectionSound sound id
  cases found : n.connections.get? id with
  | none =>
    rw [removeConnectionAbsent found]
    exact tracedNothing sound rfl
  | some c =>
    rw [removeConnectionFound sound.toIndexed found] at sound' ⊢
    have member : c ∈ n.connectionList := Table.memValues.mpr ⟨id, found⟩
    refine tracedLinks sound sound' rfl rfl (downstreamClosed sound'.toIndexed _) fun d safe => ?_
    refine (memUnlinked sound.toIndexed member).trans (and_iff_left fun same => ?_)
    exact unaffected sound'.toIndexed safe (same ▸ List.mem_singleton.mpr rfl)

theorem insertConnectionTraced {link : Connection}
    (ok : n.insertConnection link = .ok (after, changes)) : Traced patches n after changes.invalidated := by
  have sound' := insertConnectionSound sound ok
  obtain ⟨⟨_, _, absent, _⟩, e⟩ := insertConnectionIff.mp ok
  cases e
  refine tracedLinks sound sound' rfl rfl (downstreamClosed sound'.toIndexed _) fun d safe => ?_
  rw [(linkedPerm absent).mem_iff, List.mem_cons]
  refine or_iff_right fun same => ?_
  exact unaffected sound'.toIndexed safe (same ▸ List.mem_singleton.mpr rfl)

theorem insertNodeTraced {node : Node} (ok : n.insertNode node = .ok (after, changes)) :
    Traced patches n after changes.invalidated := by
  have sound' := insertNodeSound sound ok
  obtain ⟨fresh, e⟩ := insertNodeIff.mp ok
  cases e
  refine tracedNodes sound' rfl rfl (fun c member new => ?_) fun id safe => ?_
  · have same : c.source.node = node.id := by simpa using KeySet.containsOfList.mp new
    rw [← same, (sound.endsExist c member).1] at fresh
    cases fresh
  · have other : node.id ≠ id := fun same => by
      rw [KeySet.containsOfList.mpr (List.mem_singleton.mpr same.symm)] at safe
      cases safe
    rw [inserted, Table.getInsert, if_neg other]
    exact becomesRefl _

theorem setNodeTraced {node : Node} (present : n.contains node.id = true) :
    Traced patches n (n.setNode node) ((n.setNode node).downstreamClosure [node.id]) := by
  have sound' := setNodeSound sound present
  refine tracedNodes sound' rfl rfl (downstreamClosed sound'.toIndexed _) fun id safe => ?_
  have other : node.id ≠ id := fun same =>
    unaffected sound'.toIndexed safe (same ▸ List.mem_singleton.mpr rfl)
  rw [setNode, Table.getInsert, if_neg other]
  exact becomesRefl _

theorem setParameterTraced {id name : String} {value : Parameter}
    (ok : n.setParameter id name value = .ok (after, changes)) :
    Traced patches n after changes.invalidated := by
  obtain ⟨node, found, ⟨rfl, rfl, _⟩ | ⟨rfl, rfl, _⟩⟩ := setParameterCases ok
  · exact tracedNothing sound rfl
  · obtain ⟨rfl, present⟩ := nodePresent sound found
    exact setNodeTraced sound present

theorem patchNodeTraced {node : Node} (patched : patches node)
    (ok : n.patchNode node = .ok (after, changes)) : Traced patches n after changes.invalidated := by
  obtain ⟨old, found, ⟨rfl, rfl, _⟩ | ⟨rfl, rfl, _⟩⟩ := patchNodeCases ok
  · exact tracedNothing sound rfl
  · have present := (nodePresent sound found).2
    dsimp only
    split
    · rename_i content
      refine tracedNodes (setNodeSound sound present) rfl rfl
        (fun _ _ impossible => by cases impossible) fun id _ => ?_
      rw [setNode, Table.getInsert]
      split
      · rename_i same
        rw [← same, nodeFound.mp found]
        exact .some (.inr ⟨content, patched⟩)
      · exact becomesRefl _
    · exact setNodeTraced sound present

theorem removeConnectionsTraced (ids : List String) :
    Traced patches n (n.removeConnections ids).1 (n.removeConnections ids).2.invalidated :=
  removeConnectionsInduct (motive := fun net told => Traced patches n net told.invalidated)
    (tracedNothing sound rfl)
    fun id _ _ _ before => before.append (removeConnectionTraced before.sound id)

/- All that the node feeds is told of before its connections go. -/
theorem removeNodeTraced {id : String} (ok : n.removeNode id = .ok (after, changes)) :
    Traced patches n after changes.invalidated := by
  cases (removeNodeIff.mp ok).2
  have told : Traced patches n n
      (Changes.invalidated { Changes.empty with invalidated := n.downstreamClosure [id] }) :=
    tracedSame sound (downstreamClosed sound.toIndexed _)
  have cleared := told.append (removeConnectionsTraced sound
    ((n.incoming id ++ n.outgoing id).map Connection.id))
  have gone := downstreamSeed sound.toIndexed (List.mem_singleton.mpr rfl : id ∈ [id])
  exact cleared.erased (Changes.invalidatedAppend.mpr (.inl gone)) (withoutSound sound id) rfl rfl rfl rfl

end Edits
end Net
end ShaderNet

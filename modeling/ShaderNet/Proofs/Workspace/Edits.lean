import ShaderNet.Proofs.Workspace.Coherent

/-! Every edit of a workspace keeps it coherent. -/
namespace ShaderNet

theorem NodeKind.defaultsPlain (kind : NodeKind) (id type : String) (position : Point) :
    Node.hasNegativeZero ⟨id, type, position, kind.defaults⟩ = false := by
  have numbers : ∀ names : List String, Node.hasNegativeZero
      ⟨id, type, position, Table.ofList (names.map fun c => (c, .number .zero))⟩ = false := by
    intro names
    refine List.any_eq_false.mpr fun p member => ?_
    obtain ⟨name, found⟩ := Table.memValues.mp member
    obtain ⟨c, _, same⟩ := List.mem_map.mp (Table.getOfListMember found)
    cases same
    decide +kernel
  cases kind with
  | literal base =>
    cases base with
    | bool => rfl
    | _ => exact numbers ["value"]
  | compose size => exact numbers _
  | color =>
    refine List.any_eq_false.mpr fun p member => ?_
    obtain ⟨name, found⟩ := Table.memValues.mp member
    cases List.mem_singleton.mp (Table.getOfListMember found)
    decide +kernel
  | _ => rfl

def Document.isPlain (d : Document) : Bool :=
  d.nodes.all (fun node => !node.hasNegativeZero) && d.uniforms.values.all (fun u => u.id ≠ "")

namespace Document

variable {d : Document}

theorem plainNode (plain : d.isPlain = true) {node : Node} (member : node ∈ d.nodes) :
    node.hasNegativeZero = false := by
  simp only [isPlain, Bool.and_eq_true, List.all_eq_true, Bool.not_eq_true'] at plain
  exact plain.1 node member

theorem plainUniform (plain : d.isPlain = true) {u : Uniform} (member : u ∈ d.uniforms.values) :
    u.id ≠ "" := by
  simp only [isPlain, Bool.and_eq_true, List.all_eq_true, decide_eq_true_eq] at plain
  exact plain.2 u member

end Document

namespace Workspace
open Number (Double)

variable {used : List Connection} {w : Workspace}

/-! Nodes -/

theorem tryEachEdited {α : Type} {edit : Net → α → Except Failure (Net × Changes)} {items : List α}
    (edits : ∀ i ∈ items, ∀ n after changes, n.Unambiguous used → edit n i = .ok (after, changes) →
      Net.Edited used n after changes) {n after : Net} {changes : Changes} (unambiguous : n.Unambiguous used)
    (ok : tryEach edit n items = .ok (after, changes)) : Net.Edited used n after changes :=
  tryEachInduct (Net.editedNothing unambiguous _) (fun i member _ _ _ _ edited one =>
    edited.append (edits i member _ _ _ edited.unambiguous one)) ok

theorem insertNodeCoherent (coherent : Coherent used w) {node : Node}
    (plain : node.hasNegativeZero = false) : Coherent used (w.insertNode node).2 :=
  tryNetCoherent coherent fun _ _ => Net.insertNodeEdited coherent.unambiguous plain

theorem addNodeCoherent (coherent : Coherent used w) (type : String) (position : Point) :
    Coherent used (w.addNode type position).2 := by
  unfold addNode
  split
  · exact coherent
  · exact insertNodeCoherent coherent (NodeKind.defaultsPlain ..)

theorem insertNodesCoherent (coherent : Coherent used w) {nodes : List Node}
    (plain : ∀ node ∈ nodes, node.hasNegativeZero = false) :
    Coherent used (w.insertNodes nodes).2 := by
  unfold insertNodes
  split
  · exact coherent
  · exact tryNetCoherent coherent fun _ _ => tryEachEdited
      (fun node member _ _ _ unambiguous => Net.insertNodeEdited unambiguous (plain node member))
      coherent.unambiguous

theorem removeNodeCoherent (coherent : Coherent used w) (id : String) :
    Coherent used (w.removeNode id).2 :=
  tryNetCoherent coherent fun _ _ => Net.removeNodeEdited coherent.unambiguous

theorem removeNodesCoherent (coherent : Coherent used w) (ids : List String) :
    Coherent used (w.removeNodes ids).2 := by
  unfold removeNodes
  dsimp only
  split
  · exact coherent
  · exact tryNetCoherent coherent fun _ _ =>
      tryEachEdited (fun _ _ _ _ _ unambiguous => Net.removeNodeEdited unambiguous) coherent.unambiguous

theorem setParameterCoherent (coherent : Coherent used w) (id name : String) {value : Parameter}
    (plain : value.hasNegativeZero = false) : Coherent used (w.setParameter id name value).2 :=
  tryNetCoherent coherent fun _ _ => Net.setParameterEdited coherent.unambiguous plain

theorem moveNodeCoherent (coherent : Coherent used w) (id : String) (dx dy : Double) :
    Coherent used (w.moveNode id dx dy).2 :=
  tryNetCoherent coherent fun _ _ => Net.moveNodeEdited coherent.unambiguous

/-! Connections -/

theorem addConnectionCoherent (coherent : Coherent used w) (apart : Net.Apart used)
    {source target : Socket} (listed : Net.Listed used (.between source target)) :
    Coherent used (w.addConnection source target).2 := by
  unfold addConnection
  split
  · rename_i changes net done
    have edited : Net.Edited used w.net net changes :=
      Net.connectEdited coherent.unambiguous apart listed done
    have steady := steadyEdited coherent.toGood edited
    exact committed coherent steady.toCovered (steady.fresh coherent.fresh)
  · rename_i e net done
    have same : net = w.net := Net.connectEdited coherent.unambiguous apart listed done
    rw [same]
    exact coherent

theorem addConnectionsCoherent (coherent : Coherent used w) (apart : Net.Apart used)
    {cs : List Connection} (listed : ∀ c ∈ cs, Net.Listed used c) :
    Coherent used (w.addConnections cs).1 :=
  performSteady coherent
    (Action.steadiesEach fun c member => Action.steadiesConnecting apart (listed c member) _)

theorem removeConnectionsEdited {n : Net} (unambiguous : n.Unambiguous used) (ids : List String) :
    Net.Edited used n (n.removeConnections ids).1 (n.removeConnections ids).2 :=
  Net.removeConnectionsInduct (Net.editedNothing unambiguous _)
    fun id _ _ _ edited => edited.append (Net.removeConnectionEdited edited.unambiguous id)

theorem removeConnectionCoherent (coherent : Coherent used w) (id : String) :
    Coherent used (w.removeConnection id).1 :=
  performSteady coherent (Action.steadiesOnNet fun _ unambiguous => Net.removeConnectionEdited unambiguous id)

theorem removeConnectionsCoherent (coherent : Coherent used w) (ids : List String) :
    Coherent used (w.removeConnections ids).1 :=
  performSteady coherent (Action.steadiesOnNet fun _ unambiguous => removeConnectionsEdited unambiguous ids)

/-! Uniforms and includes -/

theorem setUniformCoherent (coherent : Coherent used w) {u : Uniform} (named : u.id ≠ "") :
    Coherent used (w.setUniform u).1 :=
  performSteady coherent (steadiesSettingUniform named)

theorem setUniformsCoherent (coherent : Coherent used w) {us : List Uniform}
    (named : ∀ u ∈ us, u.id ≠ "") : Coherent used (w.setUniforms us).1 :=
  performSteady coherent
    (Action.steadiesEach fun u member => steadiesSettingUniform (named u member))

theorem removeUniformCoherent (coherent : Coherent used w) (id : String) :
    Coherent used (w.removeUniform id).1 :=
  performSteady coherent (steadiesRemovingUniform id)

theorem removeUniformsCoherent (coherent : Coherent used w) (ids : List String) :
    Coherent used (w.removeUniforms ids).1 :=
  performSteady coherent (Action.steadiesEach fun id _ => steadiesRemovingUniform id)

theorem addIncludeCoherent (coherent : Coherent used w) (path : String) :
    Coherent used (w.addInclude path).2 := by
  have covers : Action.Covers used
      (.all [warningUnresolved path, including path, collectingExports]) := by
    refine Action.coversAll fun a member => ?_
    simp only [List.mem_cons, List.not_mem_nil, or_false] at member
    rcases member with rfl | rfl | rfl
    · exact (steadiesWarningUnresolved path).covers
    · exact coversIncluding path
    · exact coversCollectingExports
  unfold addInclude
  split
  · exact coherent
  · exact performCovered coherent (covers w coherent.toGood) rfl

theorem removeIncludeCoherent (coherent : Coherent used w) (path : String) :
    Coherent used (w.removeInclude path).1 := by
  have covers : Action.Covers used (.all [.onNet (·.removeInclude path), collectingExports]) := by
    refine Action.coversAll fun a member => ?_
    simp only [List.mem_cons, List.not_mem_nil, or_false] at member
    rcases member with rfl | rfl
    · exact coversRemoveInclude path
    · exact coversCollectingExports
  unfold removeInclude
  split
  · exact performCovered coherent (covers w coherent.toGood) rfl
  · exact coherent

/-! Documents -/

theorem collectedCovered (good : Good used w) {before after : List Action}
    (covers : ∀ a ∈ before, a.Covers used) (steady : ∀ a ∈ after, a.Steadies used) :
    Covered used w (Action.all (before ++ collectingExports :: after) w).1
        (Action.all (before ++ collectingExports :: after) w).2 ∧
      (Action.all (before ++ collectingExports :: after) w).1.Fresh := by
  constructor
  · refine Action.coversAll (fun a member => ?_) w good
    rcases List.mem_append.mp member with member | member
    · exact covers a member
    · rcases List.mem_cons.mp member with rfl | member
      · exact coversCollectingExports
      · exact (steady a member).covers
  · have collected := coversCollectingExports _ (Action.coversAll covers w good).good
    rw [Action.allAppend, Action.allCons]
    exact (Action.steadiesAll steady _ collected.good).fresh rfl

theorem clearingCovers (plan : Plan) : ∀ a ∈ clearing plan, Action.Covers used a := by
  intro a member
  simp only [clearing, List.mem_cons, List.not_mem_nil, or_false] at member
  rcases member with rfl | rfl | rfl | rfl | rfl
  · exact Action.coversEach fun id _ =>
      (Action.steadiesOnNet fun _ unambiguous => Net.removeConnectionEdited unambiguous id).covers
  · exact Action.coversEach fun _ _ =>
      (Action.steadiesOrWarn _ fun _ _ _ unambiguous => Net.removeNodeEdited unambiguous).covers
  · exact Action.coversEach fun id _ => (steadiesRemovingUniform id).covers
  · exact Action.coversEach fun path _ => coversRemoveInclude path
  · exact Action.coversEach fun path _ => Action.coversAndThen _ _
      (steadiesWarningUnresolved path).covers (coversIncluding path)

/- Without includes to remove or add, nothing that goes touches the exports. -/
theorem clearingSteadies {plan : Plan} (removed : plan.removedIncludes = [])
    (added : plan.addedIncludes = []) : ∀ a ∈ clearing plan, Action.Steadies used a := by
  intro a member
  simp only [clearing, removed, added, List.mem_cons, List.not_mem_nil, or_false] at member
  rcases member with rfl | rfl | rfl | rfl | rfl
  · exact Action.steadiesEach fun id _ =>
      Action.steadiesOnNet fun _ unambiguous => Net.removeConnectionEdited unambiguous id
  · exact Action.steadiesEach fun _ _ =>
      Action.steadiesOrWarn _ fun _ _ _ unambiguous => Net.removeNodeEdited unambiguous
  · exact Action.steadiesEach fun id _ => steadiesRemovingUniform id
  · exact Action.steadiesNothing
  · exact Action.steadiesNothing

theorem fillingSteadies {n : Net} {d : Document} (plain : d.isPlain = true)
    (listed : ∀ c ∈ d.connections, Net.Listed used c) :
    ∀ a ∈ filling (n.reconcile d), Action.Steadies used a := by
  intro a member
  simp only [filling, Net.reconcile, List.mem_cons, List.not_mem_nil, or_false] at member
  rcases member with rfl | rfl | rfl | rfl
  · exact Action.steadiesEach fun u member =>
      steadiesSettingUniform (Document.plainUniform plain (List.mem_filter.mp member).1)
  · exact Action.steadiesEach fun node member => Action.steadiesOrWarn _ fun _ _ _ unambiguous =>
      Net.insertNodeEdited unambiguous (Document.plainNode plain (List.mem_filter.mp member).1)
  · refine Action.steadiesEach fun c member => Action.steadiesOrWarn _ fun _ _ _ unambiguous => ?_
    obtain ⟨incoming, new, rfl⟩ := List.mem_map.mp member
    exact Net.insertConnectionEdited unambiguous (listed incoming (List.mem_filter.mp new).1)
  · exact Action.steadiesEach fun node member => Action.steadiesOrWarn _ fun _ _ _ unambiguous =>
      Net.patchNodeEdited unambiguous (Document.plainNode plain (List.mem_filter.mp member).1)

theorem loadCoherent (coherent : Coherent used w) {d : Document} (plain : d.isPlain = true)
    (listed : ∀ c ∈ d.connections, Net.Listed used c) : Coherent used (w.load d).1 := by
  have fills := fillingSteadies (n := w.net) plain listed
  unfold load
  dsimp only
  split
  · exact coherent
  · unfold following
    split
    · rename_i none
      simp only [Bool.and_eq_true, List.isEmpty_iff] at none
      refine performSteady coherent (Action.steadiesAll fun a member => ?_)
      rcases List.mem_append.mp member with member | member
      · exact clearingSteadies none.1 none.2 a member
      · exact fills a member
    · obtain ⟨covered, fresh⟩ := collectedCovered coherent.toGood (clearingCovers _) fills
      exact performCovered coherent covered fresh

theorem copyUniforms (sound : w.net.Sound) {ids : List String} {d : Document}
    (ok : w.copy ids = .ok d) :
    ∀ u ∈ d.uniforms.values, w.net.uniform? u.id = some u := by
  unfold copy at ok
  split at ok <;> cases ok
  intro u member
  obtain ⟨id, found⟩ := Table.memValues.mp member
  obtain ⟨v, shown, same⟩ := List.mem_map.mp (Table.getOfListMember found)
  cases same
  obtain ⟨node, _, named⟩ := List.mem_filterMap.mp shown
  obtain ⟨k, _, present⟩ := Option.bind_eq_some_iff.mp named
  rw [sound.uniformKeys k u present]
  exact present

theorem copyPlain (unambiguous : w.net.Unambiguous used) {ids : List String} {d : Document}
    (ok : w.copy ids = .ok d) : d.isPlain = true := by
  have stored := copyUniforms unambiguous.toSound ok
  unfold copy at ok
  split at ok <;> cases ok
  simp only [Document.isPlain, Bool.and_eq_true, List.all_eq_true, Bool.not_eq_true',
    decide_eq_true_eq]
  constructor
  · intro node member
    have listed := (Net.memNodeList unambiguous.toSound).mp (List.mem_filter.mp member).1
    exact unambiguous.plain _ node listed
  · intro u member unnamed
    have present := stored u member
    rw [Net.uniform?, unnamed, unambiguous.unnamed] at present
    cases present

theorem pasteNodesEdited {n net : Net} {dx dy : Double} {nodes : List Node} {names : Renaming}
    {changes : Changes} (plain : ∀ node ∈ nodes, node.hasNegativeZero = false)
    (edited : Net.Edited used n net changes) :
    Net.Edited used n (pasteNodes dx dy nodes net names changes).1
      (pasteNodes dx dy nodes net names changes).2.2 := by
  induction nodes generalizing net names changes with
  | nil => exact edited
  | cons node rest ih =>
    have others : ∀ node ∈ rest, node.hasNegativeZero = false :=
      fun node member => plain node (List.mem_cons_of_mem _ member)
    unfold pasteNodes
    dsimp only
    split
    · rename_i ok
      refine ih others (edited.append (Net.insertNodeEdited edited.unambiguous ?_ ok))
      exact plain node List.mem_cons_self
    · exact ih others (edited.append (Net.editedNothing edited.unambiguous _))

theorem pastingUniformsSteadies {d : Document} (plain : d.isPlain = true) :
    Action.Steadies used (pastingUniforms d) := by
  refine Action.steadiesEach fun u member w good => ?_
  split
  · exact steadiesSettingUniform (Document.plainUniform plain member) w good
  · exact steadySame good _

theorem pastingSurroundingsCovered (good : Good used w) (fresh : w.Fresh) {d : Document}
    (plain : d.isPlain = true) :
    Covered used w (pastingSurroundings d w).1 (pastingSurroundings d w).2 ∧
      (pastingSurroundings d w).1.Fresh := by
  have uniforms : Action.Steadies used (pastingUniforms d) := pastingUniformsSteadies plain
  unfold pastingSurroundings
  dsimp only
  split
  · have steady := uniforms w good
    exact ⟨steady.toCovered, steady.fresh fresh⟩
  · refine collectedCovered good (List.forall_mem_singleton.mpr ?_)
      (List.forall_mem_singleton.mpr uniforms)
    exact Action.coversEach fun path _ => coversIncluding path

theorem pastingConnectionSteadies (apart : Net.Apart used) {names : Renaming} {c : Connection}
    (listed : ∀ link, renamed names c = some link → Net.Listed used link) :
    Action.Steadies used (pastingConnection names c) := by
  unfold pastingConnection
  split
  · rename_i link found
    exact Action.steadiesConnecting apart (listed link found) _
  · exact Action.steadiesWarn _

def pastedLinks (w : Workspace) (d : Document) (dx dy : Double) : List Connection :=
  d.connections.filterMap
    (renamed (pasteNodes dx dy d.nodes (pastingSurroundings d w).1.net ∅ .empty).2.1)

theorem pasteCoherent (coherent : Coherent used w) (apart : Net.Apart used) {d : Document}
    {dx dy : Double} (plain : d.isPlain = true)
    (listed : ∀ c ∈ w.pastedLinks d dx dy, Net.Listed used c) :
    Coherent used (w.paste d dx dy).1 := by
  obtain ⟨before, fresh⟩ := pastingSurroundingsCovered coherent.toGood coherent.fresh plain
  have nodes := steadyEdited before.good (pasteNodesEdited (fun _ => Document.plainNode plain)
    (Net.editedNothing before.good.unambiguous .empty) : Net.Edited used _
      (pasteNodes dx dy d.nodes (pastingSurroundings d w).1.net ∅ .empty).1 _)
  have after := Action.steadiesEach (fun c member => pastingConnectionSteadies apart
    fun link found => listed link (List.mem_filterMap.mpr ⟨c, member, found⟩)) _ nodes.good
  refine performCovered coherent ((before.append nodes.toCovered).append after.toCovered) ?_
  exact after.fresh (nodes.fresh fresh)

/-! Questions -/

theorem deliveredCoherent {cache : Cache} (coherent : Coherent used w)
    (working : w.scene.Working [] cache) : Coherent used { w with cache := cache } :=
  ⟨⟨coherent.registry, coherent.unambiguous⟩, working, coherent.fresh⟩

theorem noteTypesCoherent (coherent : Coherent used w) : Coherent used w.noteTypes := by
  have general : ∀ (types : List (String × ValueType)) net, Net.Edited used w.net net .empty →
      Net.Edited used w.net
        (types.foldl (fun net p => (net.setConnectionType p.1 p.2).1) net) .empty := by
    intro types
    induction types with
    | nil => exact fun _ edited => edited
    | cons p rest ih =>
      intro net edited
      exact ih _ (edited.append (Net.setConnectionTypeEdited edited.unambiguous p.1 p.2))
  have edited := general w.deliveredTypes w.net (Net.editedNothing coherent.unambiguous _)
  have steady := steadyEdited coherent.toGood edited
  refine ⟨⟨coherent.registry, edited.unambiguous⟩, ⟨coherent.working.stack, fun id c found => ?_⟩, ?_⟩
  · exact steady.stable id c rfl (coherent.working.keeps id c found)
  · exact steady.fresh coherent.fresh

theorem compileCoherent (coherent : Coherent used w) (id : String) :
    Coherent used (w.compile id).2 := by
  have working := Scene.compileWorking id _ coherent.working
  unfold compile
  split <;> rename_i answered <;> rw [answered] at working
  · exact noteTypesCoherent (deliveredCoherent coherent working)
  · exact deliveredCoherent coherent working

theorem shaderCoherent (coherent : Coherent used w) (id : String) :
    Coherent used (w.shader id).2 := by
  have compiled := compileCoherent coherent id
  unfold shader
  split <;> rename_i answered <;> rw [answered] at compiled
  · exact compiled
  · split
    · exact compiled
    · split <;> exact compiled

theorem canConnectCoherent (coherent : Coherent used w) (source target : Socket) :
    Coherent used (w.canConnect source target).2 := by
  unfold canConnect
  split
  · exact coherent
  · exact coherent
  · split
    · exact coherent
    · have output := Scene.outputTypeWorking coherent.working source
      split <;> rename_i answered <;> rw [answered] at output
      · exact deliveredCoherent coherent output
      · have input := Scene.inputTypeWorking output target
        split <;> rename_i answered' <;> rw [answered'] at input
        · exact deliveredCoherent coherent input
        · exact deliveredCoherent coherent input

theorem describeCoherent (coherent : Coherent used w) (ids : List String) :
    Coherent used (w.describe ids).2 :=
  deliveredCoherent coherent (Scene.describeAllWorking coherent.working ids)

end Workspace
end ShaderNet

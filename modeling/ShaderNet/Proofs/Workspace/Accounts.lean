import ShaderNet.Proofs.Net.Accounts
import ShaderNet.Proofs.Net.Plan
import ShaderNet.Proofs.Workspace.Edits

/-! Every edit of a workspace answers changes that account for all it did to the net. -/
namespace ShaderNet.Workspace
open Number (Double)

variable {used : List Connection} {gone : String → Prop} {phase : Phase} {w : Workspace}

/-! Actions -/

def Action.Tallies (used : List Connection) (gone : String → Prop) (phase : Phase) (a : Action) :
    Prop :=
  ∀ w : Workspace, w.net.Charted used → w.net.Tallied used gone phase (a w).1.net (a w).2

namespace Action

theorem talliesNothing : nothing.Tallies used gone phase :=
  fun _ charted => Net.nothingTallied charted ∅ []

theorem talliesAndThen (a b : Action) (first : a.Tallies used gone phase)
    (second : b.Tallies used gone phase) : (a.andThen b).Tallies used gone phase := by
  intro w charted
  have before := first w charted
  exact before.append (second _ before.charted)

theorem talliesAll {actions : List Action} (each : ∀ a ∈ actions, a.Tallies used gone phase) :
    (all actions).Tallies used gone phase := allInduct talliesNothing talliesAndThen each

theorem talliesEach {α : Type} {items : List α} {action : α → Action}
    (each : ∀ i ∈ items, (action i).Tallies used gone phase) :
    (Action.each items action).Tallies used gone phase :=
  eachInduct talliesNothing talliesAndThen each

theorem talliesOrWarn {edit : Net → Except Failure (Net × Changes)} (wording : Failure → String)
    (edits : ∀ n m c, n.Charted used → edit n = .ok (m, c) → n.Tallied used gone phase m c) :
    (orWarn edit wording).Tallies used gone phase := by
  intro w charted
  unfold orWarn
  split
  · rename_i ok
    exact edits _ _ _ charted ok
  · exact Net.nothingTallied charted ∅ [_]

theorem talliesConnecting (apart : Net.Apart used) {c : Connection} (listed : Net.Listed used c)
    (wording : Failure → String) : (connecting c wording).Tallies used gone phase := by
  intro w charted
  unfold connecting
  split <;> rename_i done
  · exact Net.connectTallied charted apart listed done ""
  · exact Net.connectTallied charted apart listed done _

end Action

theorem settingUniformTallies (u : Uniform) : (settingUniform u).Tallies used gone .filling := by
  intro w charted
  unfold settingUniform
  dsimp only
  split
  · exact Net.setUniformTallied charted u _
  · exact Net.setUniformTallied charted u _

theorem removingUniformTallies (id : String) :
    (removingUniform id).Tallies used gone .clearing := by
  intro w charted
  unfold removingUniform
  dsimp only
  split
  · exact Net.removeUniformTallied charted id _
  · exact Net.removeUniformTallied charted id _

theorem collectingTallies : collectingExports.Tallies used gone phase :=
  fun _ charted => Net.nothingTallied charted _ _

theorem includingTallies (path : String) : (including path).Tallies used gone .filling :=
  fun w charted => Net.addIncludeTallied charted path (w.sources path)

theorem warningTallies (path : String) : (warningUnresolved path).Tallies used gone phase := by
  intro w charted
  unfold warningUnresolved
  split
  · exact Net.nothingTallied charted ∅ [_]
  · exact Net.nothingTallied charted ∅ []

/-! Whole documents -/

theorem pasteNodesTallied {dx dy : Double} {nodes : List Node} {n m : Net} {names : Renaming}
    {c : Changes} (before : n.Tallied used (fun _ => False) .filling m c) :
    n.Tallied used (fun _ => False) .filling (pasteNodes dx dy nodes m names c).1
      (pasteNodes dx dy nodes m names c).2.2 := by
  induction nodes generalizing m names c with
  | nil => exact before
  | cons node rest ih =>
    unfold pasteNodes
    dsimp only
    split
    · rename_i ok
      exact ih (before.append (Net.insertNodeTallied before.charted id ok))
    · exact ih (before.append (Net.nothingTallied before.charted ∅ [_]))

theorem surroundingsTallies (d : Document) :
    (pastingSurroundings d).Tallies used (fun _ => False) .filling := by
  have uniforms : (pastingUniforms d).Tallies used (fun _ => False) .filling := by
    refine Action.talliesEach fun u _ w charted => ?_
    split
    · exact settingUniformTallies u w charted
    · exact Net.nothingTallied charted ∅ []
  intro w charted
  unfold pastingSurroundings
  dsimp only
  split
  · exact uniforms w charted
  · refine Action.talliesAll (fun a member => ?_) w charted
    simp only [List.mem_cons, List.not_mem_nil, or_false] at member
    rcases member with rfl | rfl | rfl
    · exact Action.talliesEach fun path _ => includingTallies path
    · exact collectingTallies
    · exact uniforms

theorem pastingLinksTallies (apart : Net.Apart used) {names : Renaming} {cs : List Connection}
    (listed : ∀ c ∈ cs.filterMap (renamed names), Net.Listed used c) :
    Action.Tallies used gone phase (.each cs (pastingConnection names)) := by
  refine Action.talliesEach fun c member => ?_
  unfold pastingConnection
  split
  · rename_i link found
    exact Action.talliesConnecting apart (listed link (List.mem_filterMap.mpr ⟨c, member, found⟩)) _
  · exact fun w charted => Net.nothingTallied charted ∅ [_]

/- The includes that come are the only part of the clearing that fills. -/
theorem clearingTallies {plan : Plan} (removed : ∀ id ∈ plan.removedNodes, gone id) :
    ∀ a ∈ (clearing plan).take 4, a.Tallies used gone .clearing := by
  intro a member
  simp only [clearing, List.take, List.mem_cons, List.not_mem_nil, or_false] at member
  rcases member with rfl | rfl | rfl | rfl
  · exact Action.talliesEach fun id _ _ charted => Net.removeConnectionTallied charted id
  · exact Action.talliesEach fun id member =>
      Action.talliesOrWarn _ fun _ _ _ charted => Net.removeNodeTallied charted (removed id member)
  · exact Action.talliesEach fun id _ => removingUniformTallies id
  · exact Action.talliesEach fun path _ _ charted => Net.removeIncludeTallied charted path

theorem fillingTallies {plan : Plan} (added : ∀ node ∈ plan.addedNodes, ¬ gone node.id)
    (listed : ∀ c ∈ plan.addedConnections, Net.Listed used c) :
    ∀ a ∈ (clearing plan).drop 4 ++ collectingExports :: filling plan,
      a.Tallies used gone .filling := by
  intro a member
  simp only [clearing, filling, List.drop, List.cons_append, List.nil_append, List.mem_cons,
    List.not_mem_nil, or_false] at member
  rcases member with rfl | rfl | rfl | rfl | rfl | rfl
  · exact Action.talliesEach fun path _ =>
      Action.talliesAndThen _ _ (warningTallies path) (includingTallies path)
  · exact collectingTallies
  · exact Action.talliesEach fun u _ => settingUniformTallies u
  · exact Action.talliesEach fun node member =>
      Action.talliesOrWarn _ fun _ _ _ charted => Net.insertNodeTallied charted (added node member)
  · exact Action.talliesEach fun c member =>
      Action.talliesOrWarn _ fun _ _ _ charted => Net.insertConnectionTallied charted (listed c member)
  · exact Action.talliesEach fun _ _ =>
      Action.talliesOrWarn _ fun _ _ _ charted => Net.patchNodeTallied charted

theorem followingSplit (plan : Plan) :
    ∃ rest, (∀ a ∈ rest, a ∈ (clearing plan).drop 4 ++ collectingExports :: filling plan) ∧
      following plan = (Action.all ((clearing plan).take 4)).andThen (.all rest) := by
  have whole : ∀ tail, Action.all (clearing plan ++ tail) =
      (Action.all ((clearing plan).take 4)).andThen (.all ((clearing plan).drop 4 ++ tail)) := by
    intro tail
    rw [← Action.allAppend, ← List.append_assoc, List.take_append_drop]
  unfold following
  split
  · refine ⟨_, fun a member => ?_, whole _⟩
    exact (List.mem_append.mp member).elim (List.mem_append_left _)
      fun inside => List.mem_append_right _ (List.mem_cons_of_mem _ inside)
  · exact ⟨_, fun _ member => member, whole _⟩

/-! Edits -/

theorem tryNetBalanced {edit : Net → Except Failure (Net × Changes)} {c : Changes}
    (edits : ∀ m c, edit w.net = .ok (m, c) → w.net.Tallied used gone phase m c)
    (told : (w.tryNet edit).1 = .ok c) : w.net.Balanced (w.tryNet edit).2.net c := by
  unfold tryNet at told ⊢
  split at told
  · rename_i m changes ok
    cases told
    exact (edits m c ok).balanced
  · cases told

section Edits

variable (charted : w.net.Charted used) {c : Changes}
include charted

theorem performBalanced {action : Action} (tallies : action.Tallies used gone phase) :
    w.net.Balanced (w.perform action).1.net (w.perform action).2 :=
  (tallies w charted).balanced

theorem tryEachTallied {α : Type} {edit : Net → α → Except Failure (Net × Changes)}
    {items : List α} (edits : ∀ i n m c, Net.Charted used n → edit n i = .ok (m, c) →
      n.Tallied used gone phase m c) {m : Net} (ok : tryEach edit w.net items = .ok (m, c)) :
    w.net.Tallied used gone phase m c :=
  tryEachInduct (Net.nothingTallied charted ∅ [])
    (fun i _ _ _ _ _ before one => before.append (edits i _ _ _ before.charted one)) ok

theorem insertNodeBalanced {node : Node} (told : (w.insertNode node).1 = .ok c) :
    w.net.Balanced (w.insertNode node).2.net c := by
  have edits : ∀ m c, w.net.insertNode node = .ok (m, c) →
      w.net.Tallied used (fun _ => False) .filling m c :=
    fun _ _ => Net.insertNodeTallied charted id
  exact tryNetBalanced edits told

theorem addNodeBalanced {type : String} {position : Point}
    (told : (w.addNode type position).1 = .ok c) :
    w.net.Balanced (w.addNode type position).2.net c := by
  unfold addNode at told ⊢
  split at told
  · cases told
  · exact insertNodeBalanced charted told

theorem insertNodesBalanced {nodes : List Node} (told : (w.insertNodes nodes).1 = .ok c) :
    w.net.Balanced (w.insertNodes nodes).2.net c := by
  have edits : ∀ m c, tryEach Net.insertNode w.net nodes = .ok (m, c) →
      w.net.Tallied used (fun _ => False) .filling m c :=
    fun _ _ => tryEachTallied charted fun _ _ _ _ charted => Net.insertNodeTallied charted id
  unfold insertNodes at told ⊢
  split at told
  · cases told
  · exact tryNetBalanced edits told

theorem removeNodeBalanced {id : String} (told : (w.removeNode id).1 = .ok c) :
    w.net.Balanced (w.removeNode id).2.net c := by
  have edits : ∀ m c, w.net.removeNode id = .ok (m, c) →
      w.net.Tallied used (fun _ => True) .clearing m c :=
    fun _ _ => Net.removeNodeTallied charted trivial
  exact tryNetBalanced edits told

theorem removeNodesBalanced {ids : List String} (told : (w.removeNodes ids).1 = .ok c) :
    w.net.Balanced (w.removeNodes ids).2.net c := by
  have edits : ∀ m c, tryEach Net.removeNode w.net (KeySet.ofList ids).keys = .ok (m, c) →
      w.net.Tallied used (fun _ => True) .clearing m c :=
    fun _ _ => tryEachTallied charted fun _ _ _ _ charted => Net.removeNodeTallied charted trivial
  unfold removeNodes at told ⊢
  dsimp only at told ⊢
  split at told
  · cases told
  · exact tryNetBalanced edits told

theorem setParameterBalanced {id name : String} {value : Parameter}
    (told : (w.setParameter id name value).1 = .ok c) :
    w.net.Balanced (w.setParameter id name value).2.net c := by
  have edits : ∀ m c, w.net.setParameter id name value = .ok (m, c) →
      w.net.Tallied used (fun _ => False) .filling m c := fun _ _ => Net.setParameterTallied charted
  exact tryNetBalanced edits told

theorem moveNodeBalanced {id : String} {dx dy : Double} (told : (w.moveNode id dx dy).1 = .ok c) :
    w.net.Balanced (w.moveNode id dx dy).2.net c := by
  have edits : ∀ m c, w.net.moveNode id dx dy = .ok (m, c) →
      w.net.Tallied used (fun _ => False) .filling m c := fun _ _ => Net.moveNodeTallied charted
  exact tryNetBalanced edits told

theorem addConnectionBalanced (apart : Net.Apart used) {source target : Socket}
    (listed : Net.Listed used (.between source target))
    (told : (w.addConnection source target).1 = .ok c) :
    w.net.Balanced (w.addConnection source target).2.net c := by
  unfold addConnection at told ⊢
  split at told
  · rename_i changes net done
    cases told
    have tallied : w.net.Tallied used (fun _ => False) .filling net c :=
      Net.connectTallied charted apart listed done ""
    exact tallied.balanced
  · cases told

theorem addConnectionsBalanced (apart : Net.Apart used) {cs : List Connection}
    (listed : ∀ c ∈ cs, Net.Listed used c) :
    w.net.Balanced (w.addConnections cs).1.net (w.addConnections cs).2 := by
  have tallies : Action.Tallies used (fun _ => False) .filling
      (.each cs fun c => .connecting c (labelled c.id)) :=
    Action.talliesEach fun c member => Action.talliesConnecting apart (listed c member) _
  exact performBalanced charted tallies

theorem removeConnectionsBalanced (ids : List String) :
    w.net.Balanced (w.removeConnections ids).1.net (w.removeConnections ids).2 := by
  have tallied : w.net.Tallied used (fun _ => True) .clearing _ _ :=
    Net.removeConnectionsTallied charted ids
  exact tallied.balanced

theorem removeConnectionBalanced (id : String) :
    w.net.Balanced (w.removeConnection id).1.net (w.removeConnection id).2 := by
  have tallied : w.net.Tallied used (fun _ => True) .clearing _ _ :=
    Net.removeConnectionTallied charted id
  exact tallied.balanced

theorem addIncludeBalanced {path : String} (told : (w.addInclude path).1 = .ok c) :
    w.net.Balanced (w.addInclude path).2.net c := by
  have tallies : Action.Tallies used (fun _ => False) .filling
      (.all [warningUnresolved path, including path, collectingExports]) := by
    refine Action.talliesAll fun a member => ?_
    simp only [List.mem_cons, List.not_mem_nil, or_false] at member
    rcases member with rfl | rfl | rfl
    · exact warningTallies path
    · exact includingTallies path
    · exact collectingTallies
  unfold addInclude at told ⊢
  split at told
  · cases told
  · cases told
    exact performBalanced charted tallies

theorem removeIncludeBalanced (path : String) :
    w.net.Balanced (w.removeInclude path).1.net (w.removeInclude path).2 := by
  have tallies : Action.Tallies used (fun _ => True) .clearing
      (.all [.onNet (·.removeInclude path), collectingExports]) := by
    refine Action.talliesAll fun a member => ?_
    simp only [List.mem_cons, List.not_mem_nil, or_false] at member
    rcases member with rfl | rfl
    · exact fun _ charted => Net.removeIncludeTallied charted path
    · exact collectingTallies
  unfold removeInclude
  split
  · exact performBalanced charted tallies
  · exact Net.balancedNothing _

theorem setUniformsBalanced (us : List Uniform) :
    w.net.Balanced (w.setUniforms us).1.net (w.setUniforms us).2 := by
  have tallies : Action.Tallies used (fun _ => False) .filling (.each us settingUniform) :=
    Action.talliesEach fun u _ => settingUniformTallies u
  exact performBalanced charted tallies

theorem setUniformBalanced (u : Uniform) :
    w.net.Balanced (w.setUniform u).1.net (w.setUniform u).2 := by
  have tallies : (settingUniform u).Tallies used (fun _ => False) .filling := settingUniformTallies u
  exact performBalanced charted tallies

theorem removeUniformsBalanced (ids : List String) :
    w.net.Balanced (w.removeUniforms ids).1.net (w.removeUniforms ids).2 := by
  have tallies : Action.Tallies used (fun _ => True) .clearing (.each ids removingUniform) :=
    Action.talliesEach fun id _ => removingUniformTallies id
  exact performBalanced charted tallies

theorem removeUniformBalanced (id : String) :
    w.net.Balanced (w.removeUniform id).1.net (w.removeUniform id).2 := by
  have tallies : (removingUniform id).Tallies used (fun _ => True) .clearing :=
    removingUniformTallies id
  exact performBalanced charted tallies

theorem pasteBalanced (apart : Net.Apart used) {d : Document} {dx dy : Double}
    (listed : ∀ c ∈ w.pastedLinks d dx dy, Net.Listed used c) :
    w.net.Balanced (w.paste d dx dy).1.net (w.paste d dx dy).2 := by
  have surroundings := surroundingsTallies d w charted
  have nodes : (pastingSurroundings d w).1.net.Tallied used (fun _ => False) .filling
      (pasteNodes dx dy d.nodes (pastingSurroundings d w).1.net ∅ .empty).1
      (pasteNodes dx dy d.nodes (pastingSurroundings d w).1.net ∅ .empty).2.2 :=
    pasteNodesTallied (Net.nothingTallied surroundings.charted ∅ [])
  have placed := surroundings.append nodes
  exact (placed.append (pastingLinksTallies apart listed
    { (pastingSurroundings d w).1 with net := _ } placed.charted)).balanced

theorem loadBalanced {d : Document} (listed : ∀ c ∈ d.connections, Net.Listed used c) :
    w.net.Balanced (w.load d).1.net (w.load d).2 := by
  have removed : ∀ id ∈ (w.net.reconcile d).removedNodes, id ∉ d.nodes.map Node.id :=
    fun _ member => ((Plan.memRemovedNodes charted.toSound).mp member).2
  have added : ∀ node ∈ (w.net.reconcile d).addedNodes, ¬ node.id ∉ d.nodes.map Node.id :=
    fun _ member outside => outside (List.mem_map_of_mem (Plan.memAdded.mp member).1)
  have links : ∀ c ∈ (w.net.reconcile d).addedConnections, Net.Listed used c := by
    intro c member
    obtain ⟨incoming, new, rfl⟩ := List.mem_map.mp member
    exact listed incoming (List.mem_filter.mp new).1
  unfold load
  dsimp only
  split
  · exact Net.balancedNothing _
  · obtain ⟨rest, inside, whole⟩ := followingSplit (w.net.reconcile d)
    have first := Action.talliesAll (clearingTallies removed) w charted
    have fills : ∀ a ∈ rest, a.Tallies used (fun id => id ∉ d.nodes.map Node.id) .filling :=
      fun a member => fillingTallies added links a (inside a member)
    have second := Action.talliesAll fills _ first.charted
    rw [whole]
    exact Net.balancedPhases first second

end Edits
end ShaderNet.Workspace

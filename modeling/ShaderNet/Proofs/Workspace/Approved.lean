import ShaderNet.Proofs.NodeKind.Approved
import ShaderNet.Proofs.Workspace.Connectable

/-! Connections that are taken for good ones. Where nothing outdated is kept of the two nodes and of what
leads to them, a node that compiles with an input left open compiles with the connection to it exactly if
it does not refuse the type that is delivered. -/
namespace ShaderNet
open Relation (ReflTransGen)

/- With one input fed anew, a node has more above it only by the way of the new source. -/
theorem Net.Rewired.above {n after : Net} {c : Connection} (sound : n.Sound) (rewired : n.Rewired c after)
    {k : String} (path : ReflTransGen after.Feeds k c.target.node) :
    ReflTransGen n.Feeds k c.source.node ∨ ReflTransGen n.Feeds k c.target.node := by
  induction path using ReflTransGen.head_induction_on with
  | refl => exact .inr .refl
  | head feeds _ ih =>
    obtain ⟨d, member, rfl, rfl⟩ := feeds
    have fed := (feederIff rewired.sound.toIndexed).mpr ⟨member, rfl⟩
    by_cases here : d.target = c.target
    · rw [here, rewired.here] at fed
      cases fed
      exact .inl .refl
    · rw [rewired.others d.target here] at fed
      have before := ((feederIff sound.toIndexed).mp fed).1
      exact ih.imp (.head ⟨d, before, rfl, rfl⟩) (.head ⟨d, before, rfl, rfl⟩)

namespace Workspace

variable {w after : Workspace} {source target : Socket} {changes : Changes}

theorem approvedApart (approved : (w.canConnect source target).1 = .ok true) :
    source.node ≠ target.node ∧ (w.net.downstreamClosure [target.node]).contains source.node = false := by
  unfold canConnect at approved
  split at approved
  · cases approved
  · cases approved
  · split at approved
    · cases approved
    · rename_i apart
      simpa using apart

/- An open input is connected, or the workspace stays as it is. -/
theorem addConnectionCases (opened : w.net.feeder? target = none) :
    (∃ e, w.addConnection source target = (.error e, w)) ∨
      ∃ changes after, w.addConnection source target = (.ok changes, after) := by
  rcases Net.connectCases w.net (.between source target) with
    ⟨e, refused⟩ | ⟨net, changes, _, accepted⟩ | ⟨old, fed, _⟩
  · exact .inl ⟨e, by rw [addConnection, refused]⟩
  · exact .inr ⟨changes, _, by rw [addConnection, accepted]⟩
  · cases opened.symm.trans fed

section Approved

variable (sound : w.net.Sound) (idle : w.cache.stack = []) (rightSource : w.RightAbove source.node)
  (rightTarget : w.RightAbove target.node)
include sound rightSource rightTarget

theorem connectedRight (connects : w.Connects source target after) : after.RightAbove target.node := by
  obtain ⟨c, rfl, rfl, rewired, scene, _, carried⟩ := connectsRewired sound connects
  refine rightAboveKeeps.mpr fun k d path found => ?_
  obtain ⟨before, still⟩ := carried k d found
  refine still ?_
  rcases rewired.above sound path with above | above
  · exact rightAboveKeeps.mp rightSource k d above before
  · exact rightAboveKeeps.mp rightTarget k d above before

include idle

/- An input that is left open is asked for its type as the node is now. -/
theorem approvedFits {node : Node} {kind : NodeKind} (found : w.net.node target.node = .ok node)
    (known : w.registry.kind node.type = .ok kind) (opened : w.net.feeder? target = none)
    {e : Expression} (delivers : w.scene.Delivers source e)
    (approved : (w.canConnect source target).1 = .ok true) :
    ∃ sockets t, (kind.sockets w.scene.surroundings node).follow
        (w.scene.input (w.scene.evaluate []) node none) = .ok sockets ∧
      Scene.typeOf sockets.inputs target = .ok t ∧ kind.fits e.type t = true := by
  obtain ⟨apart, free⟩ := approvedApart approved
  obtain ⟨same, _⟩ := Net.nodePresent sound found
  have detached : w.scene.input (w.scene.evaluate []) node (some target.name) =
      w.scene.input (w.scene.evaluate []) node none := by
    funext name
    rw [Scene.inputDetached]
    split
    · rename_i named
      exact (Scene.inputOpen (by rw [same, ← named]; exact opened)).symm
    · rfl
  have answer := canConnectAnswer sound idle rightSource rightTarget found known apart free delivers
  rw [approved, detached] at answer
  cases offered : (kind.sockets w.scene.surroundings node).follow
      (w.scene.input (w.scene.evaluate []) node none) with
  | error cause =>
    rw [offered] at answer
    cases answer
  | ok sockets =>
    rw [offered, Recipe.okBind] at answer
    cases typed : Scene.typeOf sockets.inputs target with
    | error cause =>
      rw [typed] at answer
      cases answer
    | ok t =>
      rw [typed] at answer
      exact ⟨sockets, t, rfl, typed, (Except.ok.inj answer).symm⟩

theorem approvedConnection {node : Node} {kind : NodeKind} (found : w.net.node target.node = .ok node)
    (known : w.registry.kind node.type = .ok kind)
    (standard : ∀ signature, kind = .builtin signature → signature ∈ Signature.builtins) {c : Compiled}
    (compiled : (w.compile target.node).1 = .ok c) (opened : w.net.feeder? target = none)
    {e : Expression} (delivers : w.scene.Delivers source e) (plain : e.type.Plain)
    (approved : (w.canConnect source target).1 = .ok true)
    (added : w.addConnection source target = (.ok changes, after)) :
    (∃ d, (after.compile target.node).1 = .ok d) ↔
      ¬ kind.Refuses w.scene.surroundings node target.name e.type := by
  obtain ⟨sockets, t, offered, typed, fits⟩ := approvedFits sound idle rightSource rightTarget found known
    opened delivers approved
  obtain ⟨same, _⟩ := Net.nodePresent sound found
  have here : w.scene.input (w.scene.evaluate []) node none target.name = .ok none :=
    Scene.inputOpen (by rw [same]; exact opened)
  have made : (kind.compile w.scene.surroundings node).follow
      (w.scene.input (w.scene.evaluate []) node none) = .ok c := by
    rw [rightTarget.compile sound idle, Scene.evaluateIffMade] at compiled
    have found' : w.scene.net.node target.node = .ok node := found
    have known' : w.scene.registry.kind node.type = .ok kind := known
    simpa only [Scene.made, found', known'] using compiled
  rw [← NodeKind.approvedFed standard here made offered typed fits plain]
  -- once the input is connected, the node is told what it is told now, and what is delivered
  have right := connectedRight sound rightSource rightTarget (.inl ⟨changes, added⟩)
  have free := (approvedApart approved).2
  obtain ⟨link, rfl, rfl, rewired, scene, stack, _⟩ := connectsRewired sound (.inl ⟨changes, added⟩)
  obtain ⟨names, asks⟩ := kind.compileAsks w.scene.surroundings node
  refine exists_congr fun d => ?_
  rw [right.compile rewired.sound (stack.trans idle), scene]
  refine (Scene.rewiredMade rewired found known).trans (Eq.congr_left (Recipe.asksFollow asks ?_))
  intro name listed
  by_cases new : name = link.target.name
  · obtain ⟨result, produced, output⟩ := delivers
    rw [new, NodeKind.toldHere]
    exact Scene.inputDelivered (by rw [same]; exact rewired.here)
      ⟨result, Scene.rewiredSource sound rewired free produced, output⟩
  · obtain ⟨answer, tells⟩ := Recipe.asksAnswered asks made name listed
    rw [NodeKind.toldElsewhere new, tells]
    exact Scene.rewiredAnswer sound rewired found known asks listed new tells

end Approved
end Workspace
end ShaderNet

import ShaderNet.Proofs.Evaluate.Upstream
import ShaderNet.Proofs.Workspace.Shader

/-! Workspaces that keep nothing outdated of a node and of what leads to it. -/
namespace ShaderNet
open Relation (ReflTransGen)

theorem Net.FedWithin.above {n : Net} {inside : String → Prop} (within : n.FedWithin inside)
    {k id : String} (here : inside id) (path : ReflTransGen n.Feeds k id) : inside k := by
  induction path using ReflTransGen.head_induction_on with
  | refl => exact here
  | head feeds _ ih =>
    obtain ⟨c, member, rfl, rfl⟩ := feeds
    exact within c member ih

namespace Workspace

variable {w : Workspace} {id k : String}

/-- What is kept of a node and of all that leads to it is what would be compiled now. -/
def RightAbove (w : Workspace) (id : String) : Prop :=
  ∀ k c, ReflTransGen w.net.Feeds k id → w.cache.results.get? k = some c →
    (w.scene.compile k .empty).1 = .ok c

theorem freshCompile (w : Workspace) (id : String) :
    (w.scene.compile id .empty).1 = w.scene.evaluate [] id :=
  (Scene.compileMatches (Scene.emptyWorking _) id).1

theorem rightAboveKeeps : w.RightAbove id ↔
    w.scene.KeepsOn (ReflTransGen w.net.Feeds · id) w.cache.results := by
  simp only [RightAbove, Scene.KeepsOn, freshCompile]

theorem RightAbove.source (right : w.RightAbove id) (path : ReflTransGen w.net.Feeds k id) :
    w.RightAbove k := fun j c above => right j c (above.trans path)

theorem rightFedWithin (w : Workspace) : w.net.FedWithin w.RightAbove :=
  fun c member right => right.source (.single ⟨c, member, rfl, rfl⟩)

theorem workingRight (working : w.scene.Working [] w.cache) (id : String) : w.RightAbove id :=
  rightAboveKeeps.mpr fun k c _ found => working.keeps k c found

theorem RightAbove.compile (right : w.RightAbove id) (sound : w.net.Sound)
    (idle : w.cache.stack = []) : (w.compile id).1 = w.scene.evaluate [] id :=
  (compileAnswer w id).trans (Scene.upstreamCompile sound idle (rightAboveKeeps.mp right))

end Workspace
end ShaderNet

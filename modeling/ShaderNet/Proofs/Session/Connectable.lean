import ShaderNet.Proofs.Session.Coherent
import ShaderNet.Proofs.Session.Sound
import ShaderNet.Proofs.Workspace.Connectable

/-! A connection to a function is a good one exactly if the function can be called once it is made,
wherever what is kept is right. -/
namespace ShaderNet
open Relation (ReflTransGen)

def Workspace.Delivers (w : Workspace) (s : Socket) (e : Expression) : Prop :=
  ∃ result, (w.compile s.node).1 = .ok result ∧ result.outputs.get? s.name = some e

theorem Workspace.deliversMade {w : Workspace} (working : w.scene.Working [] w.cache) {s : Socket}
    {e : Expression} (delivers : w.Delivers s e) : w.scene.Delivers s e := by
  obtain ⟨result, compiled, output⟩ := delivers
  rw [compileAnswer, (Scene.compileMatches working s.node).1] at compiled
  exact ⟨result, compiled, output⟩

theorem Workspace.RightAbove.delivers {w : Workspace} {id : String} (right : w.RightAbove id)
    (sound : w.net.Sound) (idle : w.cache.stack = []) {s : Socket}
    (above : ReflTransGen w.net.Feeds s.node id) {e : Expression} :
    w.Delivers s e ↔ w.scene.Delivers s e := by
  rw [Delivers, (right.source above).compile sound idle, Scene.Delivers]

namespace Session
open Workspace

theorem canConnectAgrees (requests : List Request) (source target : Socket) (after : Workspace)
    (node : Node) (s : Signature) (slot : Slot) (e : Expression) :
    let w := ((start .empty).run requests).workspace
    w.scene.Working [] w.cache →
    w.net.node target.node = .ok node → w.registry.kind node.type = .ok (.builtin s) →
    s ∈ Signature.builtins → (target.name, slot) ∈ s.parameters →
    (w.net.downstreamClosure [target.node]).contains source.node = false →
    w.Delivers source e → e.type.isShape = true →
    (∀ p ∈ s.parameters, p.1 ≠ target.name → ∀ c, w.net.feeder? ⟨target.node, p.1⟩ = some c →
      ∃ e, w.Delivers c.source e ∧ e.type.isShape = true) →
    w.Connects source target after →
    ((w.canConnect source target).1 = .ok true ↔ ∃ c, (after.compile target.node).1 = .ok c) := by
  intro w working found known builtin declared free delivers shape others connects
  have sound : w.net.Sound := runSound Net.emptySound requests
  refine connectable sound found known (fun p member other c fed => ?_) working
    (Signature.builtinsCallable s builtin) declared free (deliversMade working delivers) shape connects
  obtain ⟨e, feeds, shape⟩ := others p member other c fed
  exact ⟨e, deliversMade working feeds, shape⟩

def powerRequests : List Request := [
  .insertNode (.named "f" "float"), .insertNode (.named "uv" "uv"), .insertNode (.named "t" "pow"),
  .addConnection ⟨"uv", "out"⟩ ⟨"t", "x"⟩, .addConnection ⟨"f", "out"⟩ ⟨"t", "y"⟩]

theorem canConnectAgreesPower :
    let w := ((start .empty).run powerRequests).workspace
    let after := (w.addConnection ⟨"f", "out"⟩ ⟨"t", "x"⟩).2
    (w.scene.Working [] w.cache ∧ (w.compile "t").1.toOption = none) ∧
    ((w.canConnect ⟨"f", "out"⟩ ⟨"t", "x"⟩).1 = .ok true ↔ ∃ c, (after.compile "t").1 = .ok c) ∧
    (w.canConnect ⟨"f", "out"⟩ ⟨"t", "x"⟩).1 = .ok true := by
  have ordinary : ∀ request ∈ powerRequests, request.isOrdinary = true := by decide +kernel
  have apart : Net.Apart ((start .empty).linksAlong powerRequests) := by decide +kernel
  have working := (runCoherent ⟨Workspace.emptyCoherent _, rfl⟩ apart ordinary
    fun c member => ⟨c, member, rfl, rfl⟩).workspace.working
  have number : ((start .empty).run powerRequests).workspace.Delivers ⟨"f", "out"⟩
      (.simple .float "0.0") :=
    ⟨.single "out" (.simple .float "0.0"), by decide +kernel, by decide +kernel⟩
  have fed : ((start .empty).run powerRequests).workspace.net.feeder? ⟨"t", "y"⟩ =
      some (.between ⟨"f", "out"⟩ ⟨"t", "y"⟩) := by decide +kernel
  refine ⟨⟨working, by decide +kernel⟩, ?_, by decide +kernel⟩
  refine canConnectAgrees powerRequests ⟨"f", "out"⟩ ⟨"t", "x"⟩ _ (.named "t" "pow")
    (.onFloats "pow" Signature.whole [("x", Signature.whole), ("y", Signature.whole)]) Signature.whole _
    working (by decide +kernel)
    (by decide +kernel) (by decide +kernel) (by decide +kernel) (by decide +kernel) number rfl
    (fun p member other c given => ?_) (.inl ⟨_, rfl⟩)
  have exponent : p.1 = "y" := by
    rcases List.mem_cons.mp member with rfl | member
    · exact absurd rfl other
    · rw [List.mem_singleton.mp member]
  rw [exponent, fed] at given
  cases given
  exact ⟨_, number, rfl⟩

/-- A uniform without a name becomes a vector behind the back of the node that shows it, which takes an
input of no effect from the power that it feeds. -/
def unnamedRequests : List Request := [
  .insertNode (.named "f" "float"), .insertNode (.named "u" "custom_uniform"),
  .insertNode (.named "t" "pow"), .setUniform ⟨"", .float, none⟩,
  .addConnection ⟨"u", "out"⟩ ⟨"t", "y"⟩, .addConnection ⟨"t", "out"⟩ ⟨"u", "loop"⟩,
  .compile "u", .setUniform ⟨"", .vec 3, none⟩]

theorem canConnectDiffers :
    let w := ((start .empty).run unnamedRequests).workspace
    let after := (w.addConnection ⟨"f", "out"⟩ ⟨"t", "x"⟩).2
    (w.net.downstreamClosure ["t"]).contains "f" = false ∧
    (w.compile "f").1 = .ok (.single "out" (.simple .float "0.0")) ∧
    (w.compile "u").1 = .ok (.single "out" (.simple .float "u_")) ∧
    (w.canConnect ⟨"f", "out"⟩ ⟨"t", "x"⟩).1 = .ok true ∧
    (w.addConnection ⟨"f", "out"⟩ ⟨"t", "x"⟩).1.toOption.isSome = true ∧
    (after.compile "t").1 = .error (.unsupported (.templateMismatch (.vec 3) "T" "pow(x, y)")) := by
  decide +kernel

end Session
end ShaderNet

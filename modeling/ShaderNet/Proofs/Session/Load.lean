import ShaderNet.Proofs.Session.Sound
import ShaderNet.Proofs.Workspace.Load

/-! Whatever a session has been through, loading a well-formed document leaves what the document holds
and nothing else. -/
namespace ShaderNet.Session

theorem loadConverges (requests : List Request) (d : Document) (formed : d.WellFormed)
    (apart : Net.Apart
      (((start .empty).run requests).workspace.net.connectionList ++ d.connections)) :
    let before := ((start .empty).run requests).workspace
    let after := (before.load d).1.net
    (∀ id, Option.Rel (fun node incoming => node.same incoming = true) (after.nodes.get? id)
      (d.nodes.find? fun node => node.id = id)) ∧
    (after.connectionList.map fun c => (c.source, c.target)).Perm
      (d.connections.map fun c => (c.source, c.target)) ∧
    Table.agrees Uniform.same after.uniforms d.uniforms = true ∧
    (∀ path, path ∈ after.includes.map Include.path ↔ path ∈ d.includes) ∧
    (∀ message ∈ (before.load d).2.warnings,
      Workspace.AboutInclude before.sources after.includes message) ∧
    after.order.filter (fun id => before.net.contains id) =
      before.net.order.filter fun id => id ∈ d.nodes.map Node.id := by
  intro before after
  have sound : before.net.Sound := runSound Net.emptySound requests
  have sound' : after.Sound := Workspace.loadSound sound d
  have orderly := formed.orderly
  have own := Plan.apartIncoming apart
  have cleared := Plan.clearedNet (d := d) sound before.sources
  have filled := Plan.filledNet sound orderly own cleared
  obtain ⟨reached, warnings⟩ := Workspace.loadNet sound orderly own
  rw [← reached] at filled warnings
  refine ⟨Plan.filledNodes orderly cleared filled,
    Plan.filledConnections orderly sound apart cleared filled sound',
    Plan.filledUniforms formed cleared filled, fun path => ?_, warnings apart,
    Plan.filledOrder sound cleared filled⟩
  rw [filled.includes]
  exact cleared.includes path

def sumRequests : List Request := [
  .insertNodes [.named "a" "float", .named "u" "custom_uniform", .named "s" "add"],
  .setUniform ⟨"gain", .float, none⟩,
  .useSources fun path => if path = "noise.glsl" then some "float noise();" else none,
  .addInclude "noise.glsl",
  .addConnections [.between ⟨"a", "out"⟩ ⟨"s", "a"⟩, .between ⟨"u", "out"⟩ ⟨"s", "b"⟩],
  .compile "s"]

def negatedSum : Document where
  version := 1
  includes := ["blur.glsl"]
  nodes := [.named "n" "negate", .named "s" "add",
    ⟨"u", "custom_uniform", ⟨.ofInt 3, .zero⟩, Table.ofList [("uniform", .text "bias")]⟩]
  connections := [.between ⟨"u", "out"⟩ ⟨"s", "a"⟩, .between ⟨"u", "out"⟩ ⟨"s", "b"⟩,
    .between ⟨"s", "out"⟩ ⟨"n", "a"⟩]
  uniforms := Table.ofList [("bias", ⟨"bias", .float, some (.number (.ofInt 1))⟩)]

theorem loadConvergesSum :
    (negatedSum.WellFormed ∧ Net.Apart
      (((start .empty).run sumRequests).workspace.net.connectionList ++ negatedSum.connections)) ∧
    let before := ((start .empty).run sumRequests).workspace
    let after := (before.load negatedSum).1.net
    (before.net.order = ["a", "u", "s"] ∧ after.order = ["u", "s", "n"] ∧
      (before.load negatedSum).2.warnings = [Workspace.unresolved "blur.glsl"]) ∧
    (∀ id, Option.Rel (fun node incoming => node.same incoming = true) (after.nodes.get? id)
      (negatedSum.nodes.find? fun node => node.id = id)) ∧
    (after.connectionList.map fun c => (c.source, c.target)).Perm
      (negatedSum.connections.map fun c => (c.source, c.target)) ∧
    Table.agrees Uniform.same after.uniforms negatedSum.uniforms = true ∧
    (∀ path, path ∈ after.includes.map Include.path ↔ path ∈ negatedSum.includes) ∧
    (∀ message ∈ (before.load negatedSum).2.warnings,
      Workspace.AboutInclude before.sources after.includes message) ∧
    after.order.filter (fun id => before.net.contains id) =
      before.net.order.filter fun id => id ∈ negatedSum.nodes.map Node.id := by
  have formed : negatedSum.WellFormed := by
    constructor <;> decide +kernel
  have apart : Net.Apart (((start .empty).run sumRequests).workspace.net.connectionList ++
      negatedSum.connections) := by decide +kernel
  exact ⟨⟨formed, apart⟩, by decide +kernel, loadConverges sumRequests negatedSum formed apart⟩

end ShaderNet.Session

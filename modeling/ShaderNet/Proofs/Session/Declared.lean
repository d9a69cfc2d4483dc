import ShaderNet.Proofs.Session.Proper
import ShaderNet.Proofs.Workspace.Declared

/-! Declaration before use. Whatever has been requested of a session, its shaders declare every variable
once, and all that they mention. What a node declares comes after all that feeds the node, unless a cycle
leads through it. -/
namespace ShaderNet
open Fragment (Mentions)

namespace Workspace

variable {used : List Connection} {w : Workspace}

theorem declaredProper (proper : Proper used w) {id : String} {result : Compiled}
    (compiled : (w.compile id).1 = .ok result) :
    Scene.SelfContained w.net (w.scene.compile id w.cache).2.results ∧
      (w.scene.compile id w.cache).2.results.get? id = some result := by
  have extended := Scene.compileExtended proper.charted.toSound proper.named proper.settled id
  rw [compileAnswer] at compiled
  exact ⟨extended.orderly.contained, extended.kept result compiled⟩

end Workspace

namespace Session
open Workspace

theorem shaderDeclares {requests : List Request} (named : ∀ request ∈ requests, request.Named)
    (apart : Net.Apart ((start .empty).linksAlong requests)) {id text : String}
    (shown : (((start .empty).run requests).workspace.shader id).1 = .ok text) :
    let w := ((start .empty).run requests).workspace
    let declared := w.declaredAfter w id
    ∃ result color, (w.compile id).1 = .ok result ∧ firstColor id result = .ok color ∧
      text = w.shaderText id color.text declared ∧ (declared.map Binding.name).Nodup ∧
      (∀ u s, Mentions color.text (Identifier.binding u s) →
        Identifier.binding u s ∈ declared.map Binding.name) ∧
      Ordered w.net declared := by
  have proper := runProper apart (emptyProper _) named fun c => Net.listedMember
  have indexed := proper.charted.toIndexed
  obtain ⟨result, color, compiled, first, same⟩ := shownParts shown
  obtain ⟨contained, kept⟩ := declaredProper proper compiled
  exact ⟨result, color, compiled, first, same, declaredNodup contained (Net.upstreamOrderNodup indexed id),
    fun _ _ => colorDeclared contained indexed id kept first, upstreamOrdered contained indexed id⟩

def partRequests : List Request := [
  .useRegistry .standard [],
  .insertNodes [.named "uv" "uv", .named "n" "normalize", .named "u" "split", .named "s" "sin",
    .named "v" "split", .named "out" "output"],
  .addConnections [.between ⟨"uv", "out"⟩ ⟨"n", "x"⟩, .between ⟨"n", "out"⟩ ⟨"u", "vector"⟩,
    .between ⟨"u", "x"⟩ ⟨"s", "x"⟩, .between ⟨"s", "out"⟩ ⟨"v", "vector"⟩,
    .between ⟨"v", "x"⟩ ⟨"out", "color"⟩, .between ⟨"u", "x"⟩ ⟨"out", "a"⟩]]

def partDeclarations : List Binding := [
  ⟨Identifier.binding "u" "vector", .vector .float 2, "normalize(v_uv)"⟩,
  ⟨Identifier.binding "v" "vector", .scalar .float, "sin(n1_u_vector.x)"⟩]

theorem shaderDeclaresParts :
    ((∀ request ∈ partRequests, request.Named) ∧
      Net.Apart ((start .empty).linksAlong partRequests)) ∧
    let w := ((start .empty).run partRequests).workspace
    (w.shader "out").1 = .ok (w.shaderText "out" "vec4(vec3(n1_v_vector), 1.0)" partDeclarations) ∧
    w.declaredAfter w "out" = partDeclarations ∧ Ordered w.net partDeclarations := by
  have named : ∀ request ∈ partRequests, request.Named := by
    simp [partRequests, Request.Named, Registry.standardNamed]
  have apart : Net.Apart ((start .empty).linksAlong partRequests) := by decide +kernel
  have both : let w := ((start .empty).run partRequests).workspace
      (w.shader "out").1 = .ok (w.shaderText "out" "vec4(vec3(n1_v_vector), 1.0)" partDeclarations) ∧
      w.declaredAfter w "out" = partDeclarations := by decide +kernel
  obtain ⟨shown, declared⟩ := both
  obtain ⟨_, _, _, _, _, _, _, ordered⟩ := shaderDeclares named apart shown
  exact ⟨⟨named, apart⟩, shown, declared, declared ▸ ordered⟩

def loopRequests : List Request := partRequests ++ [.addConnection ⟨"v", "x"⟩ ⟨"u", "loop"⟩]

def sharedRequests : List Request := [
  .insertNodes [.named "uv" "uv", .named "n" "normalize", .named "u" "split",
    .named "b:i)->(c" "sin", .named "c" "float", .named "out" "output"],
  .addConnections [.between ⟨"uv", "out"⟩ ⟨"n", "x"⟩, .between ⟨"n", "out"⟩ ⟨"u", "vector"⟩,
    .between ⟨"u", "x"⟩ ⟨"b:i)->(c", "x"⟩, .between ⟨"b:i)->(c", "out"⟩ ⟨"out", "color"⟩,
    .between ⟨"uv", "o)->(b:i"⟩ ⟨"c", "x"⟩],
  .shader "out",
  .addConnection ⟨"uv", "o"⟩ ⟨"b:i)->(c", "x"⟩]

theorem shaderMisdeclares :
    (let w := ((start .empty).run loopRequests).workspace
    (w.shader "out").1 =
      .ok (w.shaderText "out" "vec4(vec3(n1_v_vector), 1.0)" partDeclarations.reverse)) ∧
    (let w := ((start .empty).run sharedRequests).workspace
    (w.shader "out").1 =
      .ok (w.shaderText "out" "vec4(vec3(sin(n1_u_vector.x)), 1.0)" [])) ∧
    Mentions "sin(n1_u_vector.x)" (Identifier.binding "u" "vector") := by
  refine ⟨?_, ?_, ?_⟩ <;> decide +kernel

end Session
end ShaderNet

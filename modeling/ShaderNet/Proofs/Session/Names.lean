import ShaderNet.Proofs.Session.Each
import ShaderNet.Proofs.Workspace.Names

/-! Names of shaders. Whatever has been requested of a session, the shaders it shows declare no name
twice, unless a uniform has the name of a value of the surroundings that the shader declares too; and the
variables of nodes are words of shader source, those of a node without a name apart. -/
namespace ShaderNet

namespace Session
open Scene (Owned)
open Workspace

theorem runOwned {s : Session} (sound : s.workspace.net.Sound)
    (owned : Owned s.workspace.cache.results) (requests : List Request) :
    Owned (s.run requests).workspace.cache.results :=
  runEach (fun _ => owned) requests
    (fun past _ _ => Scene.ownedPasses (runSound sound past)) rfl

theorem shaderNamesIff (requests : List Request) {id text : String}
    (standard : ((start .empty).run requests).workspace.options = .standard)
    (plain : ((start .empty).run requests).workspace.net.includes = [])
    (shown : (((start .empty).run requests).workspace.shader id).1 = .ok text) :
    let w := ((start .empty).run requests).workspace
    (∃ color, text = textOf (standardLines (w.globals (w.net.upstreamOrder id))
      ((w.declaredAfter w id).map .ofBinding) color)) ∧
    (((w.declarations id).map Declaration.name).Nodup ↔
      ∀ value ∈ w.ambientIn (w.net.upstreamOrder id), w.net.uniforms.contains value.name = false) := by
  have sound := runSound (s := start .empty) Net.emptySound requests
  have owned := runOwned (s := start .empty) Net.emptySound Scene.emptyEach requests
  obtain ⟨result, color, _, _, same⟩ := shownParts shown
  rw [standardText standard plain] at same
  exact ⟨⟨color.text, same⟩,
    namesNodup sound standard (Scene.compileEach (Scene.ownedPasses sound) id _ owned).1⟩

def pulseRequests : List Request := [
  .insertNodes [.named "t" "time", .named "uv" "uv", .named "n" "normalize", .named "sp" "split",
    .named "m" "multiply", .named "out" "output"],
  .addConnections [.between ⟨"uv", "out"⟩ ⟨"n", "x"⟩, .between ⟨"n", "out"⟩ ⟨"sp", "vector"⟩,
    .between ⟨"t", "out"⟩ ⟨"m", "a"⟩, .between ⟨"sp", "x"⟩ ⟨"m", "b"⟩,
    .between ⟨"m", "out"⟩ ⟨"out", "color"⟩],
  .setUniform ⟨"v_uv", .vec 2, none⟩]

theorem shaderNamesIffPulse :
    let w := ((start .empty).run pulseRequests).workspace
    (w.options = .standard ∧ w.net.includes = [] ∧ (w.shader "out").1.toOption.isSome = true) ∧
    (w.declarations "out").map Declaration.name =
      ["u_time", "u_v_uv", "v_uv", "fragColor", "n2_sp_vector"] ∧
    ((w.declarations "out").map Declaration.name).Nodup := by
  have facts : let w := ((start .empty).run pulseRequests).workspace
      (w.options = .standard ∧ w.net.includes = [] ∧ (w.shader "out").1.toOption.isSome = true) ∧
      (w.declarations "out").map Declaration.name =
        ["u_time", "u_v_uv", "v_uv", "fragColor", "n2_sp_vector"] ∧
      ∀ value ∈ w.ambientIn (w.net.upstreamOrder "out"), w.net.uniforms.contains value.name = false := by
    decide +kernel
  obtain ⟨⟨standard, plain, some⟩, names, free⟩ := facts
  refine ⟨⟨standard, plain, some⟩, names, ?_⟩
  cases shown : (((start .empty).run pulseRequests).workspace.shader "out").1 with
  | error e =>
    rw [shown] at some
    cases some
  | ok text => exact (shaderNamesIff pulseRequests standard plain shown).2.mpr free

def clockRequests : List Request := [
  .insertNodes [.named "t" "time", .named "out" "output"],
  .addConnection ⟨"t", "out"⟩ ⟨"out", "color"⟩,
  .setUniform ⟨"time", .float, none⟩]

theorem shaderRepeatsTime :
    let w := ((start .empty).run clockRequests).workspace
    w.options = .standard ∧ w.net.includes = [] ∧
    (w.shader "out").1 = .ok (textOf ["#version 300 es", "precision highp float;", "",
      "uniform float u_time;", "uniform float u_time;", "in vec2 v_uv;", "out vec4 fragColor;", "",
      "void main() \x7b", "    fragColor = vec4(vec3(u_time), 1.0);", "\x7d"]) ∧
    (w.declarations "out").map Declaration.name = ["u_time", "u_time", "v_uv", "fragColor"] := by
  decide +kernel

/-! Variables -/

theorem variablesWordedIff (requests : List Request) {id : String} {c : Compiled}
    (compiled : (((start .empty).run requests).workspace.compile id).1 = .ok c) :
    ∀ b ∈ c.bindings,
      (∀ l ∈ b.name.toList, l.isAlphanum = true ∨ l = '_') ∧
      (∃ l, b.name.toList.head? = some l ∧ l.isAlpha = true) ∧
      (['_', '_'] <:+: b.name.toList ↔ id = "") := by
  intro b member
  have sound := runSound (s := start .empty) Net.emptySound requests
  have owned := runOwned (s := start .empty) Net.emptySound Scene.emptyEach requests
  have binds : c.Binds id := compileEach (Scene.ownedPasses sound) owned compiled
  rw [binds.name member]
  refine ⟨fun l inside => ?_, ⟨'n', Identifier.bindingLetter id "vector", by decide⟩,
    Identifier.bindingDoubled⟩
  simpa [Fragment.continuesWord] using Identifier.bindingWord inside

def namelessRequests : List Request := [
  .insertNodes [.named "uv" "uv", .named "n" "normalize", .named "_s" "split", .named "" "split"],
  .addConnections [.between ⟨"uv", "out"⟩ ⟨"n", "x"⟩, .between ⟨"n", "out"⟩ ⟨"_s", "vector"⟩,
    .between ⟨"n", "out"⟩ ⟨"", "vector"⟩]]

def splitDirection (name : String) : Compiled :=
  ⟨[⟨name, .vec 2, "normalize(v_uv)"⟩],
    Table.ofList (["x", "y"].map fun c => (c, .simple .float (name ++ "." ++ c)))⟩

theorem namelessCompiled :
    let w := ((start .empty).run namelessRequests).workspace
    (w.compile "_s").1 = .ok (splitDirection "n5_X5fXs_vector") ∧
      (w.compile "").1 = .ok (splitDirection "n0__vector") := by
  decide +kernel

theorem variablesWordedIffMarked :
    (((start .empty).run namelessRequests).workspace.compile "_s").1 =
      .ok (splitDirection "n5_X5fXs_vector") ∧
    ¬ ['_', '_'] <:+: "n5_X5fXs_vector".toList := by
  have compiled := namelessCompiled.1
  obtain ⟨_, _, doubled⟩ := variablesWordedIff namelessRequests compiled _ List.mem_cons_self
  exact ⟨compiled, fun pair => absurd (doubled.mp pair) (by decide)⟩

theorem unnamedDoubles :
    (((start .empty).run namelessRequests).workspace.compile "").1 = .ok (splitDirection "n0__vector") ∧
    ['_', '_'] <:+: "n0__vector".toList :=
  ⟨namelessCompiled.2, "n0".toList, "vector".toList, by decide⟩

end Session
end ShaderNet

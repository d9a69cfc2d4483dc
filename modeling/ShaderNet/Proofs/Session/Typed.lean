import Mathlib.Data.List.Infix
import ShaderNet.Proofs.Evaluate.Sliced
import ShaderNet.Proofs.Session.Offered

/-! Types along a session. With uniforms of types that documents can name, all that is compiled is of
canonical types, and the names of components are read within their table. What is kept of a node from the
time of another uniform is not made anew, so of nodes with something outdated above them this is so only if
the uniforms were of such types all along. -/
namespace ShaderNet
open NodeKind (sliceOr)

def Compiled.Typed : Compiled → Prop :=
  Compiled.All (fun b => b.type.isScalar = true ∨ b.type.isVector = true)
    fun e => e.type.isCanonical = true

theorem Scene.typedPasses {scene : Scene} (standard : scene.registry = .standard)
    (surroundings : NodeKind.Typed scene.surroundings) :
    scene.Passes (fun _ e => e.type.isCanonical = true) fun _ => Compiled.Typed := by
  refine passesAll (fun node kind e known yields => ?_) fun node b bound => ?_
  · exact NodeKind.yieldsCanonical (Registry.standardTyped (standard ▸ known)) surroundings yields
  · obtain ⟨e, size, _, _, sized, rfl⟩ := bound
    exact ValueType.sizedShape sized

namespace Workspace

def Admits (w : Workspace) : Prop :=
  ∀ id u, w.net.uniforms.get? id = some u → ∃ j, ValueType.decode j = some u.type

/-- These nodes are compiled to typed results, and whatever stood beyond the table of component names, the
same would be compiled and told of them. -/
structure TypedWithin (w : Workspace) (inside : String → Prop) : Prop where
  compiled : ∀ id c, inside id → (w.compile id).1 = .ok c → c.Typed
  compile : ∀ beyond id, inside id →
    w.scene.compileBy (sliceOr beyond) id w.cache = w.scene.compile id w.cache
  sockets : ∀ beyond node kind detached, inside node.id → w.registry.kind node.type = .ok kind →
    w.scene.socketsBy (sliceOr beyond) kind node detached w.cache =
      w.scene.sockets kind node detached w.cache
  describe : ∀ beyond ids, (∀ id ∈ ids, inside id) →
    w.scene.describeAllBy (sliceOr beyond) ids w.cache = w.scene.describeAll ids w.cache

theorem typedWithin {w : Workspace} (sound : w.net.Sound) (standard : w.registry = .standard)
    (surroundings : NodeKind.Typed w.scene.surroundings) {inside : String → Prop}
    (within : w.net.FedWithin inside)
    (each : ∀ id c, w.cache.results.get? id = some c → inside id → c.Typed) : w.TypedWithin inside := by
  have passes := (Scene.typedPasses standard surroundings).within sound within
  have sliced (beyond : Nat → List String) : w.scene.Sliced inside
      (fun id e => inside id → e.type.isCanonical = true) (sliceOr beyond) := by
    refine Scene.typedSliced (fun type kind known => ?_) inside beyond
    change w.registry.kind type = .ok kind at known
    exact Registry.standardTyped (standard ▸ known)
  exact ⟨fun id c here compiled => compileEach passes each compiled here,
    fun beyond id here => Scene.compileSliced sound within passes (sliced beyond) id w.cache here each,
    fun beyond node kind detached here known =>
      Scene.socketsSliced sound within passes (sliced beyond) here known detached each,
    fun beyond ids here => Scene.describeAllSliced sound within passes (sliced beyond) here each⟩

end Workspace

namespace Session
open Workspace

def tintPartRequests : List Request := [
  .setUniform ⟨"tint", .vec 4, none⟩,
  .insertNodes [⟨"u", "custom_uniform", .origin, Table.ofList [("uniform", .text "tint")]⟩,
    .named "n" "negate", .named "s" "split", .named "v" "vec4"],
  .addConnections [.between ⟨"u", "out"⟩ ⟨"n", "a"⟩, .between ⟨"n", "out"⟩ ⟨"s", "vector"⟩,
    .between ⟨"s", "w"⟩ ⟨"v", "x"⟩],
  .compile "n"]

def partsCompiled : Compiled :=
  ⟨[⟨"n1_s_vector", .vec 4, "(-u_tint)"⟩],
    Table.ofList (NodeKind.components.map fun c => (c, .simple .float ("n1_s_vector." ++ c)))⟩

def outgrownRequests : List Request := [
  .insertNodes [.named "u" "custom_uniform", .named "s" "split"],
  .setUniform ⟨"", .vec 9, none⟩,
  .addConnection ⟨"u", "out"⟩ ⟨"s", "vector"⟩, .compile "u",
  .setUniform ⟨"", .vec 3, none⟩]

/- The node leaves the name of its uniform out, so it is not among the readers of the uniform, and what it
was compiled to before stays. -/
theorem keptUntyped :
    let w := ((start .empty).run outgrownRequests).workspace
    (w.registry = .standard ∧ w.net.uniforms.entries = [("", ⟨"", .vec 3, none⟩)]) ∧
    (w.compile "u").1 = .ok (.single "out" (.simple (.vec 9) "u_")) ∧
    (w.compile "s").1 = .error (.outOfRange 9 4) :=
  ⟨⟨rfl, by decide +kernel⟩, by decide +kernel⟩

end Session
end ShaderNet

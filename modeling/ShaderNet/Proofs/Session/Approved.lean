import ShaderNet.Proofs.Session.Connectable
import ShaderNet.Proofs.Session.Readers
import ShaderNet.Proofs.Session.Sound
import ShaderNet.Proofs.Workspace.Approved

/-! Connections that are taken for good ones along a session. They leave a node that compiles one that
compiles, but for casts that would widen, for components that are missing and for functions that name two
parameters alike. -/
namespace ShaderNet
open Relation (ReflTransGen)

def NodeKind.isListed : NodeKind → Bool
  | builtin signature => signature ∈ Signature.builtins
  | _ => true

theorem Registry.standardListed {type : String} {signature : Signature}
    (known : standard.kind type = .ok (.builtin signature)) : signature ∈ Signature.builtins := by
  have each : ∀ entry ∈ standard.entries, entry.2.isListed = true := by decide +kernel
  exact of_decide_eq_true (each (type, .builtin signature) (Table.getMember (kindFound.mp known)))

namespace Session
open Workspace

theorem approvedCompiles (requests : List Request) (source target : Socket) (node : Node)
    (kind : NodeKind) (e : Expression) :
    let w := ((start .empty).run requests).workspace
    let added := w.addConnection source target
    w.registry = .standard → w.net.node target.node = .ok node → w.registry.kind node.type = .ok kind →
    w.RightAbove source.node → w.RightAbove target.node →
    (∃ c, (w.compile target.node).1 = .ok c) → w.net.feeder? target = none →
    w.Delivers source e → e.type.Plain → (w.canConnect source target).1 = .ok true →
    (¬ kind.Refuses w.scene.surroundings node target.name e.type →
      ∃ c, (added.2.compile target.node).1 = .ok c) ∧
    (kind.Refuses w.scene.surroundings node target.name e.type → (∃ changes, added.1 = .ok changes) →
      ∀ c, (added.2.compile target.node).1 ≠ .ok c) := by
  have sound : ((start .empty).run requests).workspace.net.Sound := runSound Net.emptySound requests
  have idle := runIdle (s := start .empty) rfl requests
  generalize ((start .empty).run requests).workspace = w at sound idle
  intro w' added standard found known rightSource rightTarget compiled opened delivers plain approved
  obtain ⟨c, compiled⟩ := compiled
  have delivers : w.scene.Delivers source e := by
    obtain ⟨result, compiled, output⟩ := delivers
    rw [rightSource.compile sound idle] at compiled
    exact ⟨result, compiled, output⟩
  rcases addConnectionCases opened with ⟨cause, refused⟩ | ⟨changes, after, accepted⟩
  · have same : added = (.error cause, w) := refused
    rw [same]
    refine ⟨fun _ => ⟨c, compiled⟩, fun _ impossible => ?_⟩
    obtain ⟨_, impossible⟩ := impossible
    cases impossible
  · have builtin : ∀ signature, kind = .builtin signature → signature ∈ Signature.builtins := by
      rintro signature rfl
      exact Registry.standardListed (standard ▸ known)
    have compiles := approvedConnection sound idle rightSource rightTarget found known builtin compiled
      opened delivers plain approved accepted
    have same : added = (.ok changes, after) := accepted
    rw [same]
    exact ⟨compiles.mpr, fun refuses _ d made => compiles.mp ⟨d, made⟩ refuses⟩

def boundedRequests : List Request := [
  .setUniform ⟨"v", .variant [.vec 2, .float], none⟩,
  .insertNode ⟨"v", "custom_uniform", .origin, Table.ofList [("uniform", .text "v")]⟩,
  .insertNode (.named "uv" "uv"), .insertNode (.named "f" "float"), .insertNode (.named "t" "clamp"),
  .addConnection ⟨"uv", "out"⟩ ⟨"t", "x"⟩, .addConnection ⟨"v", "out"⟩ ⟨"t", "minVal"⟩, .compile "t"]

theorem approvedCompilesBounded :
    let w := ((start .empty).run boundedRequests).workspace
    let added := w.addConnection ⟨"f", "out"⟩ ⟨"t", "maxVal"⟩
    (w.registry = .standard ∧ w.cache.results.keys = ["t", "uv", "v"] ∧
      (w.canConnect ⟨"f", "out"⟩ ⟨"t", "maxVal"⟩).1 = .ok true) ∧
    ∃ c, (added.2.compile "t").1 = .ok c := by
  have compiles := approvedCompiles boundedRequests ⟨"f", "out"⟩ ⟨"t", "maxVal"⟩ (.named "t" "clamp")
    (.builtin (.onNumbers "clamp" [("x", Signature.whole), ("minVal", Signature.wholeOrComponent),
      ("maxVal", Signature.wholeOrComponent)])) (.simple .float "0.0")
  have facts :
      let w := ((start .empty).run boundedRequests).workspace
      (w.cache.results.keys = ["t", "uv", "v"] ∧
        (w.canConnect ⟨"f", "out"⟩ ⟨"t", "maxVal"⟩).1 = .ok true) ∧
      (∀ p ∈ w.cache.results.entries, (w.scene.compile p.1 .empty).1 = .ok p.2) ∧
      w.net.node "t" = .ok (.named "t" "clamp") ∧
      w.net.feeder? ⟨"t", "maxVal"⟩ = none ∧
      (w.compile "f").1 = .ok (.single "out" (.simple .float "0.0")) ∧
      (w.compile "t").1 =
        .ok (.single "out" (.compound (.vec 2) "clamp(v_uv, u_v, vec2(0.0, 0.0))")) := by
    decide +kernel
  have standard : ((start .empty).run boundedRequests).workspace.registry = .standard := rfl
  -- from here on nothing has to be run
  generalize ((start .empty).run boundedRequests).workspace = w at compiles facts standard ⊢
  obtain ⟨⟨keys, approved⟩, made, found, opened, delivered, compiled⟩ := facts
  have right {id : String} : w.RightAbove id := fun k c _ kept => made _ (Table.getMember kept)
  have known : w.registry.kind "clamp" = Registry.standard.kind "clamp" := by rw [standard]
  have accepted := compiles standard found known right right ⟨_, compiled⟩ opened
    ⟨_, delivered, rfl⟩ (.inl rfl) approved
  exact ⟨⟨standard, keys, approved⟩, accepted.1 fun refuses => by cases refuses⟩

/-- A node that compiles fails once a connection to an open input of it is taken for a good one and
made. -/
def Spoils (requests : List Request) (source target : Socket) (type : ValueType) (cause : Unsupported) :
    Prop :=
  let w := ((start .empty).run requests).workspace
  let added := w.addConnection source target
  (w.compile target.node).1.toOption.isSome = true ∧ w.net.feeder? target = none ∧
  ((w.compile source.node).1.toOption.bind (·.outputs.get? source.name)).map (·.type) = some type ∧
  (w.canConnect source target).1 = .ok true ∧ added.1.toOption.isSome = true ∧
  (added.2.compile target.node).1 = .error (.unsupported cause)

instance (requests : List Request) (source target : Socket) (type : ValueType) (cause : Unsupported) :
    Decidable (Spoils requests source target type cause) :=
  inferInstanceAs (Decidable (_ ∧ _ ∧ _ ∧ _ ∧ _ ∧ _))

def besideRequests (type parameter value : String) : List Request := [
  .insertNode (.named "f" "float"), .insertNode (.named "uv" "uv"),
  .insertNode ⟨"t", type, .origin, Table.ofList [(parameter, .text value)]⟩]

def namesakeSources : Sources := fun _ =>
  some "#pragma editor: export\nfloat f(float a, vec2 a) \x7b return a.x; \x7d\n"

theorem approvedSpoils :
    Spoils (besideRequests "cast" "type" "vec3") ⟨"uv", "out"⟩ ⟨"t", "value"⟩ (.vec 2)
      (.widening (.vec 2) (.vec 3)) ∧
    Spoils (besideRequests "swizzle" "member" "z") ⟨"uv", "out"⟩ ⟨"t", "vector"⟩ (.vec 2)
      (.missingComponent (.vec 2) 3) ∧
    Spoils (besideRequests "swizzle" "member" "xx") ⟨"f", "out"⟩ ⟨"t", "vector"⟩ .float
      (.scalarSelection .float "xx") ∧
    Spoils ([.useSources namesakeSources, .addInclude "a"] ++ besideRequests "function" "function" "f")
      ⟨"f", "out"⟩ ⟨"t", "a"⟩ .float (.argument "a" "f" (.vec 2) .float) ∧
    Spoils unnamedRequests ⟨"f", "out"⟩ ⟨"t", "x"⟩ .float
      (.templateMismatch (.vec 3) "T" "pow(x, y)") := by
  decide +kernel

end Session
end ShaderNet

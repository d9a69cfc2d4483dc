import Mathlib.Data.List.Induction
import ShaderNet.Proofs.Evaluate.Each
import ShaderNet.Proofs.Session.Sound
import ShaderNet.Proofs.Workspace.Shader

/-! Properties of results along a session. What recipes ensure wherever a registry is used holds of all
that is kept under it, for nothing that was compiled under another registry is. -/
namespace ShaderNet
open Scene (Each Passes)

namespace Workspace

variable {links : Connection → Prop} {w after : Workspace} {changes : Changes}

theorem partsRegistry (parts : Parts links w after changes) : after.registry = w.registry := by
  induction parts with
  | nothing => rfl
  | one part => cases part <;> rfl
  | append _ _ first second => exact second.trans first

theorem partsExported {good : ExportedFunction → Prop}
    (each : ∀ path source functions, Fragment.exports path source = .ok functions →
      ∀ f ∈ functions, good f)
    (parts : Parts links w after changes) (known : ∀ name f, w.exports.get? name = some f → good f) :
    ∀ name f, after.exports.get? name = some f → good f := by
  induction parts with
  | nothing => exact known
  | one part =>
    cases part with
    | collectExports => exact Exports.collectEach each _
    | _ => exact known
  | append _ _ first second => exact second (first known)

theorem eachLasting {given : String → Expression → Prop} {good : String → Compiled → Prop}
    (passes : w.scene.Passes given good) : w.Lasting fun cache => Each good cache.results :=
  ⟨fun id cache each => (Scene.compileEach passes id cache each).1, fun _ each => each⟩

theorem compileEach {given : String → Expression → Prop} {good : String → Compiled → Prop}
    (passes : w.scene.Passes given good) (each : Each good w.cache.results) {id : String} {c : Compiled}
    (compiled : (w.compile id).1 = .ok c) : good id c :=
  (Scene.compileEach passes id w.cache each).2 c (compileAnswer w id ▸ compiled)

end Workspace

namespace Session
open Workspace

variable {s : Session}

theorem runThen (s : Session) (requests : List Request) (request : Request) :
    (s.run (requests ++ [request])).workspace = ((s.run requests).answer request).2.workspace := by
  induction requests generalizing s with
  | nil => rfl
  | cons first rest ih => exact ih _

theorem answerExported {good : ExportedFunction → Prop}
    (each : ∀ path source functions, Fragment.exports path source = .ok functions →
      ∀ f ∈ functions, good f)
    (known : ∀ name f, s.workspace.exports.get? name = some f → good f) (request : Request) :
    ∀ name f, (s.answer request).2.workspace.exports.get? name = some f → good f := by
  rcases s.answerCases request with
    ⟨mid, changes, parts, same⟩ | question | ⟨options, sources, same⟩ | ⟨_, _, registry, _, _, same⟩
  · rw [same]
    change ∀ name f, mid.exports.get? name = some f → good f
    exact partsExported each parts known
  · have lasting : s.workspace.Lasting fun _ => True := ⟨fun _ _ _ => trivial, fun _ _ => trivial⟩
    rw [(answerAsked lasting (askedRefl trivial) question).exports]
    exact known
  · rw [same]
    exact known
  · rw [same]
    exact known

/- What is true of every function that a fragment exports is true of all that a session offers. -/
theorem runExported {good : ExportedFunction → Prop}
    (each : ∀ path source functions, Fragment.exports path source = .ok functions →
      ∀ f ∈ functions, good f)
    (known : ∀ name f, s.workspace.exports.get? name = some f → good f) (requests : List Request) :
    ∀ name f, (s.run requests).workspace.exports.get? name = some f → good f := by
  induction requests generalizing s with
  | nil => exact known
  | cons request rest ih => exact ih (answerExported each known request)

def usesRegistry : Request → Bool
  | .useRegistry _ _ => true
  | _ => false

theorem answerRegistry {request : Request} (other : usesRegistry request = false) :
    (s.answer request).2.workspace.registry = s.workspace.registry := by
  rcases s.answerCases request with
    ⟨mid, changes, parts, same⟩ | question | ⟨options, sources, same⟩ | ⟨_, _, registry, rfl, _, same⟩
  · rw [same]
    change mid.registry = s.workspace.registry
    exact partsRegistry parts
  · have lasting : s.workspace.Lasting fun _ => True := ⟨fun _ _ _ => trivial, fun _ _ => trivial⟩
    exact (answerAsked lasting (askedRefl trivial) question).registry
  · rw [same]
  · cases other

theorem runRegistry {requests : List Request} (others : (requests.any usesRegistry) = false) :
    (s.run requests).workspace.registry = s.workspace.registry := by
  induction requests generalizing s with
  | nil => rfl
  | cons request rest ih =>
    obtain ⟨other, later⟩ := Bool.or_eq_false_iff.mp others
    exact (ih later).trans (answerRegistry other)

variable {registry : Registry} {given : String → Expression → Prop} {good : String → Compiled → Prop}

theorem answerEach (request : Request)
    (passes : s.workspace.registry = registry → s.workspace.scene.Passes given good)
    (each : s.workspace.registry = registry → Each good s.workspace.cache.results)
    (now : (s.answer request).2.workspace.registry = registry) :
    Each good (s.answer request).2.workspace.cache.results := by
  rcases s.answerCases request with
    ⟨mid, changes, parts, same⟩ | question | ⟨options, sources, same⟩ | ⟨_, _, other, _, _, same⟩
  · rw [same] at now ⊢
    refine Scene.dropEach ?_ changes.invalidated
    rw [partsCache parts]
    exact each ((partsRegistry parts).symm.trans now)
  · have lasting : s.workspace.Lasting fun _ => True := ⟨fun _ _ _ => trivial, fun _ _ => trivial⟩
    rw [(answerAsked lasting (askedRefl trivial) question).registry] at now
    exact (answerAsked (eachLasting (passes now)) (askedRefl (each now)) question).kept
  · rw [same] at now ⊢
    exact each now
  · rw [same]
    exact Scene.emptyEach

theorem runEach (start : s.workspace.registry = registry → Each good s.workspace.cache.results)
    (requests : List Request)
    (passes : ∀ past, past <+: requests → (s.run past).workspace.registry = registry →
      (s.run past).workspace.scene.Passes given good)
    (now : (s.run requests).workspace.registry = registry) :
    Each good (s.run requests).workspace.cache.results := by
  induction requests using List.reverseRecOn with
  | nil => exact start now
  | append_singleton past request ih =>
    have before : past <+: past ++ [request] := List.prefix_append _ _
    rw [runThen] at now ⊢
    exact answerEach request (passes past before)
      (ih fun earlier within => passes earlier (within.trans before)) now

end Session
end ShaderNet

import ShaderNet.Proofs.Evaluate.Offered
import ShaderNet.Proofs.NodeKind.Typed
import ShaderNet.Proofs.Session.Each
import ShaderNet.Proofs.Session.Readers
import ShaderNet.Proofs.Workspace.Upstream

/-! Declared sockets along a session. What a node declares and what it compiles to agree wherever
nothing outdated is kept of the nodes that lead to it. -/
namespace ShaderNet
open Relation (ReflTransGen)

/-! Exported functions -/

theorem Fragment.supportedCanonical {o : Origin} {w : Word} {t : ValueType}
    (ok : supportedType o w = .ok t) : t.isCanonical = true := by
  unfold supportedType at ok
  split at ok <;> cases ok <;> rfl

theorem Fragment.exportFunctionCanonical {o : Origin} {pragmas : List String} {f : FunctionForm}
    {function : ExportedFunction} (ok : exportFunction o pragmas f = .ok function) {t : ValueType}
    (output : function.output = some t) : t.isCanonical = true := by
  unfold exportFunction at ok
  cases result : exportOutput o f.result with
  | error e => rw [result] at ok; cases ok
  | ok type =>
    cases parameters : f.parameters.mapM (exportParameter o) with
    | error e => rw [result, parameters] at ok; cases ok
    | ok ps =>
      rw [result, parameters] at ok
      cases ok
      unfold exportOutput at result
      rw [show type = some t from output] at result
      split at result
      · cases result
      · cases supported : supportedType o f.result with
        | error e => rw [supported] at result; cases result
        | ok t' =>
          rw [supported] at result
          cases result
          exact supportedCanonical supported

def Exports.Regular (exports : Exports) : Prop :=
  ∀ name f, exports.get? name = some f → ∀ t, f.output = some t → t.isRegular = true

theorem Fragment.exportsCanonical {path source : String} {functions : List ExportedFunction}
    (ok : exports path source = .ok functions) :
    ∀ f ∈ functions, ∀ t, f.output = some t → t.isCanonical = true :=
  exportsEach (fun _ _ _ _ _ _ exported _ => exportFunctionCanonical exported) ok

namespace Session
open Workspace

theorem runCanonical (requests : List Request) :
    ∀ name f, ((start .empty).run requests).workspace.exports.get? name = some f →
      ∀ t, f.output = some t → t.isCanonical = true :=
  runExported (fun _ _ _ => Fragment.exportsCanonical) (fun _ _ found => by cases found) requests

def openRequests : List Request := [
  .insertNodes [⟨"u", "custom_uniform", .origin, Table.ofList [("uniform", .text "tint")]⟩,
    .named "low" "min", .named "sum" "add", .named "out" "output"],
  .setUniform ⟨"tint", .vec 3, none⟩,
  .addConnection ⟨"u", "out"⟩ ⟨"out", "color"⟩, .addConnection ⟨"low", "out"⟩ ⟨"sum", "a"⟩,
  .compile "out"]

end Session
end ShaderNet

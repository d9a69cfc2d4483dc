import ShaderNet.Evaluate
import ShaderNet.Net.Edit

/-! Workspaces: a net under edit together with all that has been compiled of it. -/
namespace ShaderNet

structure Options where
  version : String
  precision : String
  output : String
  deriving DecidableEq, Repr

def Options.standard : Options := ⟨"300 es", "highp", "fragColor"⟩

abbrev Sources := String → Option String

structure Workspace where
  net : Net
  cache : Cache
  registry : Registry
  exports : Exports
  sources : Sources
  options : Options

namespace Workspace

def empty : Workspace := ⟨.empty, .empty, .standard, ∅, fun _ => none, .standard⟩

instance : Inhabited Workspace := ⟨empty⟩

def scene (w : Workspace) : Scene := ⟨w.net, w.registry, w.exports⟩

def withRegistry (w : Workspace) (registry : Registry) : Workspace :=
  { w with registry := registry, cache := w.cache.clear }

def commit (w : Workspace) (changes : Changes) : Workspace :=
  { w with cache := w.cache.drop changes.invalidated }

abbrev Action := Workspace → Workspace × Changes

namespace Action

def nothing : Action := fun w => (w, .empty)

def warn (message : String) : Action := fun w => (w, .warning message)

def andThen (a b : Action) : Action := fun w =>
  let (w, first) := a w
  let (w, second) := b w
  (w, first ++ second)

def all (actions : List Action) : Action := actions.foldl andThen nothing

def each (items : List α) (action : α → Action) : Action := all (items.map action)

def onNet (edit : Net → Net × Changes) : Action := fun w =>
  let (net, changes) := edit w.net
  ({ w with net := net }, changes)

def orWarn (edit : Net → Except Failure (Net × Changes)) (wording : Failure → String) : Action :=
  fun w =>
    match edit w.net with
    | .ok (net, changes) => ({ w with net := net }, changes)
    | .error e => (w, .warning (wording e))

def connecting (c : Connection) (wording : Failure → String) : Action := fun w =>
  match w.net.connect c with
  | (.ok changes, net) => ({ w with net := net }, changes)
  | (.error e, net) => ({ w with net := net }, .warning (wording e))

end Action

def perform (w : Workspace) (action : Action) : Workspace × Changes :=
  let (w, changes) := action w
  (w.commit changes, changes)

def namers (net : Net) (type parameter value : String) : List String :=
  (net.nodeList.filter fun node => node.type = type &&
    (node.parameters.get? parameter).bind Parameter.text? = some value).map Node.id

def settingUniform (u : Uniform) : Action := fun w =>
  let (net, changes) := w.net.setUniform u
  ({ w with net := net },
    if changes.isEmpty then changes
    else { changes with invalidated := net.downstreamClosure (namers w.net "custom_uniform" "uniform" u.id) })

def removingUniform (id : String) : Action := fun w =>
  let (net, changes) := w.net.removeUniform id
  ({ w with net := net },
    if changes.isEmpty then changes
    else { changes with invalidated := net.downstreamClosure (namers net "custom_uniform" "uniform" id) })

def collectingExports : Action := fun w =>
  let (exports, errors) := Exports.collect w.net.includes
  let callers := (w.net.nodeList.filter fun node => node.type = "function").map Node.id
  ({ w with exports := exports },
    { Changes.empty with
      invalidated := w.net.downstreamClosure callers, warnings := errors.map FragmentError.message })

def unresolved (path : String) : String := "Include " ++ quote path ++ " could not be resolved"

def including (path : String) : Action := fun w =>
  Action.onNet (·.addInclude path (w.sources path)) w

def warningUnresolved (path : String) : Action := fun w =>
  if (w.sources path).isNone then (w, .warning (unresolved path)) else (w, .empty)

end Workspace
end ShaderNet

import ShaderNet.Net.Plan
import ShaderNet.Workspace.Basic

/-! Edits of a workspace. Every edit that succeeds is committed and answers all it changed. -/
namespace ShaderNet.Workspace
open Number (Double)

def tryNet (w : Workspace) (edit : Net → Except Failure (Net × Changes)) :
    Except Failure Changes × Workspace :=
  match edit w.net with
  | .ok (net, changes) => (.ok changes, { w with net := net }.commit changes)
  | .error e => (.error e, w)

def done (r : Workspace × Changes) : Except Failure Changes × Workspace := (.ok r.2, r.1)

def insertNode (w : Workspace) (node : Node) : Except Failure Changes × Workspace :=
  w.tryNet (·.insertNode node)

def addNode (w : Workspace) (type : String) (position : Point) :
    Except Failure Changes × Workspace :=
  match w.registry.kind type with
  | .error e => (.error e, w)
  | .ok kind => w.insertNode ⟨w.net.uniqueId type, type, position, kind.defaults⟩

def firstTaken (net : Net) : List String → List Node → Option String
  | _, [] => none
  | seen, node :: rest =>
    if net.contains node.id ∨ node.id ∈ seen then some node.id
    else firstTaken net (node.id :: seen) rest

def tryEach (edit : Net → α → Except Failure (Net × Changes)) (net : Net) (items : List α) :
    Except Failure (Net × Changes) :=
  items.foldlM (fun (net, changes) item => do
    let (net, more) ← edit net item
    return (net, changes ++ more)) (net, Changes.empty)

def insertNodes (w : Workspace) (nodes : List Node) : Except Failure Changes × Workspace :=
  match firstTaken w.net [] nodes with
  | some id => (.error (.duplicateNode id), w)
  | none => w.tryNet (tryEach Net.insertNode · nodes)

def removeNode (w : Workspace) (id : String) : Except Failure Changes × Workspace :=
  w.tryNet (·.removeNode id)

def removeNodes (w : Workspace) (ids : List String) : Except Failure Changes × Workspace :=
  let ids := (KeySet.ofList ids).keys
  match ids.find? (fun id => !w.net.contains id) with
  | some id => (.error (.nodeMissing id), w)
  | none => w.tryNet (tryEach Net.removeNode · ids)

/-- A refused connection is not committed, though what fed the input may be gone. -/
def addConnection (w : Workspace) (source target : Socket) : Except Failure Changes × Workspace :=
  match w.net.connect (.between source target) with
  | (.ok changes, net) => (.ok changes, { w with net := net }.commit changes)
  | (.error e, net) => (.error e, { w with net := net })

def labelled (id : String) (e : Failure) : String := id ++ ": " ++ e.message

def addConnections (w : Workspace) (cs : List Connection) : Workspace × Changes :=
  w.perform (.each cs fun c => .connecting c (labelled c.id))

def removeConnection (w : Workspace) (id : String) : Workspace × Changes :=
  w.perform (.onNet (·.removeConnection id))

def removeConnections (w : Workspace) (ids : List String) : Workspace × Changes :=
  w.perform (.onNet (·.removeConnections ids))

def setParameter (w : Workspace) (id name : String) (value : Parameter) :
    Except Failure Changes × Workspace :=
  w.tryNet (·.setParameter id name value)

def moveNode (w : Workspace) (id : String) (dx dy : Double) : Except Failure Changes × Workspace :=
  w.tryNet (·.moveNode id dx dy)

def addInclude (w : Workspace) (path : String) : Except Failure Changes × Workspace :=
  match (w.sources path).map (Fragment.exports path) with
  | some (.error e) => (.error (.fragment e), w)
  | _ => done (w.perform (.all [warningUnresolved path, including path, collectingExports]))

def removeInclude (w : Workspace) (path : String) : Workspace × Changes :=
  if w.net.includes? path then
    w.perform (.all [.onNet (·.removeInclude path), collectingExports])
  else (w, .empty)

def setUniform (w : Workspace) (u : Uniform) : Workspace × Changes := w.perform (settingUniform u)

def setUniforms (w : Workspace) (us : List Uniform) : Workspace × Changes :=
  w.perform (.each us settingUniform)

def removeUniform (w : Workspace) (id : String) : Workspace × Changes :=
  w.perform (removingUniform id)

def removeUniforms (w : Workspace) (ids : List String) : Workspace × Changes :=
  w.perform (.each ids removingUniform)

/-! Whole documents -/

def clearing (plan : Plan) : List Action := [
  .each plan.removedConnections fun id => .onNet (·.removeConnection id),
  .each plan.removedNodes fun id => .orWarn (·.removeNode id) Failure.message,
  .each plan.removedUniforms removingUniform,
  .each plan.removedIncludes fun path => .onNet (·.removeInclude path),
  .each plan.addedIncludes fun path => .andThen (warningUnresolved path) (including path)]

def filling (plan : Plan) : List Action := [
  .each plan.updatedUniforms settingUniform,
  .each plan.addedNodes fun node => .orWarn (·.insertNode node) Failure.message,
  .each plan.addedConnections fun c => .orWarn (·.insertConnection c) (labelled c.id),
  .each plan.modifiedNodes fun node => .orWarn (·.patchNode node) Failure.message]

def following (plan : Plan) : Action :=
  if plan.removedIncludes.isEmpty && plan.addedIncludes.isEmpty then
    .all (clearing plan ++ filling plan)
  else .all (clearing plan ++ collectingExports :: filling plan)

def load (w : Workspace) (d : Document) : Workspace × Changes :=
  let plan := w.net.reconcile d
  if plan.isEmpty then (w, .empty) else w.perform (following plan)

def copy (w : Workspace) (ids : List String) : Except Failure Document :=
  match ids.find? (fun id => !w.net.contains id) with
  | some id => .error (.nodeMissing id)
  | none =>
    let chosen := KeySet.ofList ids
    let nodes := w.net.nodeList.filter fun node => chosen.contains node.id
    let shown := (nodes.filter fun node => node.type = "custom_uniform").filterMap fun node =>
      ((node.parameters.get? "uniform").bind Parameter.text?).bind w.net.uniform?
    .ok ⟨Document.currentVersion, w.net.includes.map Include.path, nodes,
      w.net.connectionList.filter fun c =>
        chosen.contains c.source.node && chosen.contains c.target.node,
      Table.ofList (shown.map fun u => (u.id, u))⟩

abbrev Renaming := Table String String

def pasteNodes (dx dy : Double) :
    List Node → Net → Renaming → Changes → Net × Renaming × Changes
  | [], net, names, changes => (net, names, changes)
  | node :: rest, net, names, changes =>
    let id := net.uniqueId node.type
    let names := names.insert node.id id
    match net.insertNode { node with id := id, position := node.position.shift dx dy } with
    | .ok (net, added) => pasteNodes dx dy rest net names (changes ++ added)
    | .error e => pasteNodes dx dy rest net names (changes ++ .warning e.message)

def renamed (names : Renaming) (c : Connection) : Option Connection :=
  match names.get? c.source.node, names.get? c.target.node with
  | some source, some target => some (.between ⟨source, c.source.name⟩ ⟨target, c.target.name⟩)
  | _, _ => none

def pastingConnection (names : Renaming) (c : Connection) : Action :=
  match renamed names c with
  | some link => .connecting link Failure.message
  | none => .warn (c.id ++ ": endpoint missing from the pasted nodes")

def pastingUniforms (d : Document) : Action :=
  .each d.uniforms.values fun u w =>
    if (w.net.uniform? u.id).isNone then settingUniform u w else (w, .empty)

def pastingSurroundings (d : Document) : Action := fun w =>
  let missing := d.includes.filter fun path => !w.net.includes? path
  if missing.isEmpty then pastingUniforms d w
  else Action.all [.each missing including, collectingExports, pastingUniforms d] w

def pasting (d : Document) (dx dy : Double) : Action := fun w =>
  let (w, before) := pastingSurroundings d w
  let (net, names, changes) := pasteNodes dx dy d.nodes w.net ∅ .empty
  let (w, after) := Action.each d.connections (pastingConnection names) { w with net := net }
  (w, before ++ changes ++ after)

/-- Add what a document holds under fresh identifiers. Uniforms and includes that are already there
stay as they are. -/
def paste (w : Workspace) (d : Document) (dx dy : Double) : Workspace × Changes :=
  w.perform (pasting d dx dy)

end ShaderNet.Workspace

import ShaderNet.Net.Reach

/-! Edits of a net. Each answers the net after it and the changes it made, with every node that is
computed from what changed among the invalidated ones. -/
namespace ShaderNet.Net
open Number (Double)

def insertNode (n : Net) (node : Node) : Except Failure (Net × Changes) :=
  if n.contains node.id then .error (.duplicateNode node.id)
  else .ok ({ n with nodes := n.nodes.insert node.id node, order := n.order ++ [node.id] },
    { Changes.empty with addedNodes := [node], invalidated := KeySet.ofList [node.id] })

def withInput (t : Option Touching) (name : String) : Option Touching :=
  let t := t.getD .nothing
  some { t with inputs := t.inputs.add name }

def withOutput (t : Option Touching) (name : String) : Option Touching :=
  let t := t.getD .nothing
  some { t with outputs := t.outputs.insert name ((t.outputs.get? name).getD 0 + 1) }

def insertConnection (n : Net) (c : Connection) : Except Failure (Net × Changes) :=
  if !n.contains c.source.node then .error (.nodeMissing c.source.node)
  else if !n.contains c.target.node then .error (.nodeMissing c.target.node)
  else if n.connections.contains c.id then .error (.duplicateConnection c.id)
  else if n.feeding.contains c.target then .error (.inputOccupied c.target)
  else
    let entering := n.touching.alter c.target.node (withInput · c.target.name)
    let after := { n with
      connections := n.connections.insert c.id c
      feeding := n.feeding.insert c.target c.id
      feeds := n.feeds.insert c.source (((n.feeds.get? c.source).getD ∅).add c.id)
      touching := entering.alter c.source.node (withOutput · c.source.name) }
    .ok (after, { Changes.empty with
      addedConnections := [c], invalidated := after.downstreamClosure [c.target.node] })

def withoutInput (t : Option Touching) (name : String) : Option Touching :=
  t.map fun t => { t with inputs := t.inputs.erase name }

def fewer : Option Nat → Option Nat
  | some (k + 2) => some (k + 1)
  | _ => none

def withoutOutput (t : Option Touching) (name : String) : Option Touching :=
  t.map fun t => { t with outputs := t.outputs.alter name fewer }

def unlessEmpty (t : Option Touching) : Option Touching := t.filter (fun t => !t.isEmpty)

def dropConsumer (ids : Option (KeySet String)) (id : String) : Option (KeySet String) :=
  (ids.map fun s => s.erase id).filter (fun s => !s.isEmpty)

def removeConnection (n : Net) (id : String) : Net × Changes :=
  match n.connections.get? id with
  | none => (n, Changes.empty)
  | some c =>
    let entering := n.touching.alter c.target.node (withoutInput · c.target.name)
    let leaving := entering.alter c.source.node (withoutOutput · c.source.name)
    let after := { n with
      connections := n.connections.erase id
      feeding := n.feeding.erase c.target
      feeds := n.feeds.alter c.source (dropConsumer · id)
      touching := (leaving.alter c.source.node unlessEmpty).alter c.target.node unlessEmpty }
    (after, { Changes.empty with
      removedConnections := [c], invalidated := after.downstreamClosure [c.target.node] })

def removeConnections (n : Net) (ids : List String) : Net × Changes :=
  ids.foldl (fun (n, changes) id =>
    let (n, more) := n.removeConnection id
    (n, changes ++ more)) (n, Changes.empty)

def removeNode (n : Net) (id : String) : Except Failure (Net × Changes) :=
  if n.contains id then
    let (after, changes) := n.removeConnections ((n.incoming id ++ n.outgoing id).map Connection.id)
    .ok ({ after with
        nodes := after.nodes.erase id
        order := after.order.filter (fun other => other ≠ id)
        touching := after.touching.erase id },
      { Changes.empty with invalidated := n.downstreamClosure [id] } ++ changes ++
        { Changes.empty with removedNodes := [id] })
  else .error (.nodeMissing id)

/-- Connect an output to an input in place of what feeds the input so far. That is removed before the
new connection is tried, and stays removed should the new one be refused. -/
def connect (n : Net) (c : Connection) : Except Failure Changes × Net :=
  match n.node c.source.node, n.node c.target.node with
  | .error e, _ => (.error e, n)
  | .ok _, .error e => (.error e, n)
  | .ok _, .ok _ =>
    match n.feeder? c.target with
    | none =>
      match n.insertConnection c with
      | .ok (after, added) => (.ok added, after)
      | .error e => (.error e, n)
    | some old =>
      if old.id = c.id then (.error (.duplicateConnection old.id), n)
      else
        let (cleared, removed) := n.removeConnection old.id
        match cleared.insertConnection c with
        | .ok (after, added) => (.ok (removed ++ added), after)
        | .error e => (.error e, cleared)

def setNode (n : Net) (node : Node) : Net := { n with nodes := n.nodes.insert node.id node }

def setParameter (n : Net) (id name : String) (value : Parameter) :
    Except Failure (Net × Changes) := do
  let node ← n.node id
  if Parameter.sameOption (node.parameters.get? name) (some value) then .ok (n, Changes.empty)
  else
    let after := n.setNode { node with parameters := node.parameters.insert name value }
    .ok (after, { Changes.empty with modifiedNodes := [id], invalidated := after.downstreamClosure [id] })

def moveNode (n : Net) (id : String) (dx dy : Double) : Except Failure (Net × Changes) := do
  let node ← n.node id
  .ok (n.setNode { node with position := node.position.shift dx dy },
    { Changes.empty with modifiedNodes := [id] })

def patchNode (n : Net) (next : Node) : Except Failure (Net × Changes) := do
  let node ← n.node next.id
  if node.same next then .ok (n, Changes.empty)
  else
    let after := n.setNode next
    .ok (after, { Changes.empty with
      modifiedNodes := [next.id]
      invalidated := if node.sameContent next then ∅ else after.downstreamClosure [next.id] })

def setConnectionType (n : Net) (id : String) (type : ValueType) : Net × Bool :=
  match n.connections.get? id with
  | some c =>
    if c.type = some type then (n, false)
    else ({ n with connections := n.connections.insert id { c with type := some type } }, true)
  | none => (n, false)

def setUniform (n : Net) (u : Uniform) : Net × Changes :=
  if (n.uniform? u.id).any (fun v => v.same u) then (n, Changes.empty)
  else ({ n with uniforms := n.uniforms.insert u.id u },
    { Changes.empty with updatedUniforms := Table.ofList [(u.id, u)] })

def removeUniform (n : Net) (id : String) : Net × Changes :=
  if n.uniforms.contains id then
    ({ n with uniforms := n.uniforms.erase id }, { Changes.empty with removedUniforms := [id] })
  else (n, Changes.empty)

def replaceSource (path : String) (source : Option String) : List Include → List Include
  | [] => []
  | i :: rest =>
    if i.path = path then { i with source := source } :: rest else i :: replaceSource path source rest

/-- An include that is already there takes the new source; that is no change of its own. -/
def addInclude (n : Net) (path : String) (source : Option String) : Net × Changes :=
  if n.includes? path then
    ({ n with includes := replaceSource path source n.includes }, Changes.empty)
  else ({ n with includes := n.includes ++ [⟨path, source⟩] },
    { Changes.empty with addedIncludes := [path] })

def removeInclude (n : Net) (path : String) : Net × Changes :=
  if n.includes? path then
    ({ n with includes := n.includes.filter (fun i => i.path ≠ path) },
      { Changes.empty with removedIncludes := [path] })
  else (n, Changes.empty)

end ShaderNet.Net

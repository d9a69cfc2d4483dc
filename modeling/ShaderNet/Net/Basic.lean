import ShaderNet.Changes
import ShaderNet.Document.Basic
import ShaderNet.Failure
import ShaderNet.Fragment.Exports

/-! Nets: nodes, the connections between them, uniforms and included fragments, with look-ups along
connections in both directions. -/
namespace ShaderNet

@[ext] structure Touching where
  inputs : KeySet String
  outputs : Table String Nat
  deriving DecidableEq

namespace Touching

def nothing : Touching := ⟨∅, ∅⟩

def isEmpty (t : Touching) : Bool := t.inputs.isEmpty && t.outputs.isEmpty

end Touching

/-- `order` lists the nodes as they were inserted. `feeding` binds an input to the connection that
ends there, `feeds` an output to those that start there, `touching` a node to its connected
sockets. -/
structure Net where
  nodes : Table String Node
  order : List String
  connections : Table String Connection
  feeding : Table Socket String
  feeds : Table Socket (KeySet String)
  touching : Table String Touching
  uniforms : Table String Uniform
  includes : List Include
  deriving DecidableEq

namespace Net

def empty : Net := ⟨∅, [], ∅, ∅, ∅, ∅, ∅, []⟩

instance : Inhabited Net := ⟨empty⟩

def node? (n : Net) (id : String) : Option Node := n.nodes.get? id

def node (n : Net) (id : String) : Except Failure Node :=
  match n.node? id with
  | some node => .ok node
  | none => .error (.nodeMissing id)

def contains (n : Net) (id : String) : Bool := n.nodes.contains id

def nodeList (n : Net) : List Node := n.order.filterMap n.node?

def connectionList (n : Net) : List Connection := n.connections.values

def feeder? (n : Net) (input : Socket) : Option Connection :=
  (n.feeding.get? input).bind n.connections.get?

def fedBy (n : Net) (output : Socket) : List Connection :=
  match n.feeds.get? output with
  | some ids => ids.keys.filterMap n.connections.get?
  | none => []

def touching? (n : Net) (id : String) : Option Touching := n.touching.get? id

def outgoing (n : Net) (id : String) : List Connection :=
  match n.touching? id with
  | some t => t.outputs.keys.flatMap fun name => n.fedBy ⟨id, name⟩
  | none => []

def incoming (n : Net) (id : String) : List Connection :=
  match n.touching? id with
  | some t => t.inputs.keys.filterMap fun name => n.feeder? ⟨id, name⟩
  | none => []

def uniform? (n : Net) (id : String) : Option Uniform := n.uniforms.get? id

def includes? (n : Net) (path : String) : Bool := n.includes.any (fun i => i.path = path)

def document (n : Net) : Document :=
  ⟨Document.currentVersion, n.includes.map Include.path, n.nodeList, n.connectionList, n.uniforms⟩

end Net
end ShaderNet

import ShaderNet.Net.Basic

/-! What it takes to bring a net to a document. -/
namespace ShaderNet

structure Plan where
  removedConnections : List String
  removedNodes : List String
  removedUniforms : List String
  removedIncludes : List String
  addedIncludes : List String
  updatedUniforms : List Uniform
  addedNodes : List Node
  addedConnections : List Connection
  modifiedNodes : List Node

def Plan.isEmpty (p : Plan) : Bool :=
  p.removedConnections.isEmpty && p.removedNodes.isEmpty && p.removedUniforms.isEmpty &&
  p.removedIncludes.isEmpty && p.addedIncludes.isEmpty && p.updatedUniforms.isEmpty &&
  p.addedNodes.isEmpty && p.addedConnections.isEmpty && p.modifiedNodes.isEmpty

namespace Net

/-- The document is taken as it is; connections are matched by their ends and come without the types
they were seen to deliver. -/
def reconcile (n : Net) (d : Document) : Plan :=
  let ids := KeySet.ofList (d.nodes.map Node.id)
  let links := KeySet.ofList (d.connections.map Connection.id)
  { removedConnections := (n.connectionList.map Connection.id).filter (fun id => !links.contains id)
    removedNodes := (n.nodeList.map Node.id).filter (fun id => !ids.contains id)
    removedUniforms := n.uniforms.keys.filter (fun id => !d.uniforms.contains id)
    removedIncludes := (n.includes.map Include.path).filter (fun path => path ∉ d.includes)
    addedIncludes := d.includes.filter (fun path => !n.includes? path)
    updatedUniforms := d.uniforms.values.filter (fun u => !(n.uniform? u.id).any (fun v => v.same u))
    addedNodes := d.nodes.filter (fun node => !n.contains node.id)
    addedConnections :=
      (d.connections.filter (fun c => !n.connections.contains c.id)).map
        (fun c => { c with type := none })
    modifiedNodes := d.nodes.filter (fun node => (n.node? node.id).any (fun m => !m.same node)) }

end Net
end ShaderNet

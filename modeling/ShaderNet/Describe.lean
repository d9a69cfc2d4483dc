import ShaderNet.Evaluate

/-! Descriptions of nodes for display. Whatever is wrong with a node becomes part of its
description. -/
namespace ShaderNet

structure Description where
  id : String
  type : String
  label : String
  description : String
  inputs : List (String × ValueType)
  outputs : List (String × ValueType)
  parameters : Parameters
  error : Option String
  deriving DecidableEq

namespace Scene

def orphans (declared : List (String × ValueType)) (connected : List String)
    (seen : String → Option ValueType) : List (String × ValueType) :=
  (connected.filter fun name => !declared.any fun p => p.1 = name).map fun name =>
    (name, (seen name).getD .broken)

def withOrphans (scene : Scene) (d : Description) : Description :=
  match scene.net.touching? d.id with
  | none => d
  | some t => { d with
      inputs := d.inputs ++ orphans d.inputs t.inputs.keys fun name =>
        (scene.net.feeder? ⟨d.id, name⟩).bind Connection.type
      outputs := d.outputs ++ orphans d.outputs t.outputs.keys fun name =>
        (scene.net.fedBy ⟨d.id, name⟩).findSome? Connection.type }

def completed (kind : NodeKind) (node : Node) : Parameters :=
  kind.defaults.overlay node.parameters.entries

def describe (scene : Scene) (id : String) (cache : Cache) : Except Failure Description × Cache :=
  match scene.net.node id with
  | .error e => (.error e, cache)
  | .ok node =>
    match scene.registry.kind node.type with
    | .error e =>
      (.ok (scene.withOrphans
        ⟨id, node.type, node.type, "", [], [], node.parameters, some e.message⟩), cache)
    | .ok kind =>
      let plain : Description :=
        ⟨id, node.type, kind.label, kind.description, [], [], completed kind node, none⟩
      match scene.sockets kind node none cache with
      | (.error e, cache) => (.ok (scene.withOrphans { plain with error := some e.message }), cache)
      | (.ok sockets, cache) =>
        let declared := { plain with inputs := sockets.inputs, outputs := sockets.outputs }
        match scene.compile id cache with
        | (.ok _, cache) => (.ok (scene.withOrphans declared), cache)
        | (.error e, cache) =>
          (.ok (scene.withOrphans { declared with error := some e.message }), cache)

def describeAll (scene : Scene) : List String → Cache → Except Failure (List Description) × Cache
  | [], cache => (.ok [], cache)
  | id :: rest, cache =>
    match scene.describe id cache with
    | (.error e, cache) => (.error e, cache)
    | (.ok d, cache) =>
      match scene.describeAll rest cache with
      | (.error e, cache) => (.error e, cache)
      | (.ok ds, cache) => (.ok (d :: ds), cache)

end Scene
end ShaderNet

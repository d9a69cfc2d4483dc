import ShaderNet.Describe
import ShaderNet.Workspace.Basic

/-! Compiling nodes of a workspace, and whole shaders around them. -/
namespace ShaderNet.Workspace

def deliveredTypes (w : Workspace) : List (String × ValueType) :=
  w.cache.recent.flatMap fun id =>
    match w.cache.results.get? id with
    | none => []
    | some result => (w.net.outgoing id).filterMap fun c =>
      (result.outputs.get? c.source.name).map fun e => (c.id, e.type)

def noteTypes (w : Workspace) : Workspace :=
  { w with
    net := w.deliveredTypes.foldl (fun net p => (net.setConnectionType p.1 p.2).1) w.net
    cache := { w.cache with recent := [] } }

def compile (w : Workspace) (id : String) : Except Failure Compiled × Workspace :=
  match w.scene.compile id w.cache with
  | (.ok result, cache) => (.ok result, { w with cache := cache }.noteTypes)
  | (.error e, cache) => (.error e, { w with cache := cache })

/-- Whether a connection would be a good one: it closes no cycle, and the types fit, promoted if the
node that takes the value promotes its inputs. -/
def canConnect (w : Workspace) (source target : Socket) : Except Failure Bool × Workspace :=
  match w.net.node target.node, w.net.node source.node with
  | .error e, _ => (.error e, w)
  | .ok _, .error e => (.error e, w)
  | .ok consumer, .ok _ =>
    if source.node = target.node ∨ (w.net.downstreamClosure [target.node]).contains source.node then
      (.ok false, w)
    else
      match w.scene.outputType source w.cache with
      | (.error e, cache) => (.error e, { w with cache := cache })
      | (.ok output, cache) =>
        match w.scene.inputType target cache with
        | (.error e, cache) => (.error e, { w with cache := cache })
        | (.ok input, cache) =>
          let fits := (w.registry.kind consumer.type).map fun kind =>
            if kind.promotesInputs then output.toImplicitly input else output.toStrictly input
          (fits, { w with cache := cache })

def describe (w : Workspace) (ids : List String) : Except Failure (List Description) × Workspace :=
  match w.scene.describeAll ids w.cache with
  | (answer, cache) => (answer, { w with cache := cache })

/-! Shaders -/

def uniformLine (type : ValueType) (name : String) : String :=
  "uniform " ++ type.name ++ " " ++ name ++ ";"

def bindingLine (b : Binding) : String :=
  "    " ++ b.type.name ++ " " ++ b.name ++ " = " ++ b.text ++ ";"

def includeLines (i : Include) : List String :=
  match i.source with
  | some source => [String.ofList (Text.trimEnd source.toList), ""]
  | none => []

def shaderLines (w : Workspace) (order : List String) (color : String) : List String :=
  let types := (order.filterMap w.net.node?).map Node.type
  let ambient := Ambient.all.filter fun value => value.isUniform && value.name ∈ types
  let bindings := (order.filterMap w.cache.results.get?).flatMap Compiled.bindings
  ["#version " ++ w.options.version, "precision " ++ w.options.precision ++ " float;", ""] ++
  ambient.map (fun value => uniformLine value.type value.identifier) ++
  w.net.uniforms.values.map (fun u => uniformLine u.type (Identifier.uniform u.id)) ++
  ["in vec2 v_uv;", "out vec4 " ++ w.options.output ++ ";", ""] ++
  w.net.includes.flatMap includeLines ++
  ["void main() \x7b"] ++ bindings.map bindingLine ++
  ["    " ++ w.options.output ++ " = " ++ color ++ ";", "\x7d"]

def shader (w : Workspace) (id : String) : Except Failure String × Workspace :=
  match w.compile id with
  | (.error e, w) => (.error e, w)
  | (.ok result, w) =>
    match result.outputs.values.head? with
    | none => (.error (.unsupported (.noOutput id)), w)
    | some e =>
      match e.displayed with
      | .error cause => (.error (.unsupported cause), w)
      | .ok color => (.ok ("\n".intercalate (w.shaderLines (w.net.upstreamOrder id) color.text) ++ "\n"), w)

end ShaderNet.Workspace

import ShaderNet.Connection
import ShaderNet.Document.Type
import ShaderNet.Node
import ShaderNet.Uniform

/-! Parameters, nodes, connections and uniforms in documents. -/
namespace ShaderNet
open Json (record required defaulted optional)

def ParameterKind.tag : ParameterKind → String
  | number => "number"
  | boolean => "boolean"
  | text => "text"
  | color => "color"
  | floatVector => "floatVector"
  | path => "path"

def ParameterKind.ofTag? (s : String) : Option ParameterKind := all.find? (fun k => k.tag = s)

namespace Parameter

/-- Only a path can fail to be written: its bytes may be those of no text. -/
def encodeValue : Parameter → Option Json
  | number x => some (.ofDouble x)
  | boolean b => some (.bool b)
  | text s => some (.string s)
  | color c => some (.ofList .ofSingle c.channels)
  | floatVector xs => some (.ofList .ofSingle xs)
  | path p => p.text?.map .string

def encode (p : Parameter) : Option Json :=
  p.encodeValue.map fun value => .object [("kind", .string p.kind.tag), ("value", value)]

def decodeColor (j : Json) : Option Color :=
  match Json.listOf Json.single? j with
  | some [r, g, b, a] => some ⟨r, g, b, a⟩
  | _ => none

def decodeAs (j : Json) : ParameterKind → Option Parameter
  | .number => j.double?.map number
  | .boolean => j.bool?.map boolean
  | .text => j.string?.map text
  | .color => (decodeColor j).map color
  | .floatVector => (Json.listOf Json.single? j).map floatVector
  | .path => j.string?.map fun s => path (.ofText s)

def decodeKind (inField : Bool) : Json → Option ParameterKind :=
  Json.choice? (fun j => inField && j.isNull) ParameterKind.ofTag?

def decode (j : Json) : Option Parameter := do
  match ← record ["kind", "value"] j with
  | [some kind, some value] => decodeAs value (← decodeKind j.isObject kind)
  | _ => none

end Parameter

namespace Point

def encode (p : Point) : Json := .object [("x", .ofDouble p.x), ("y", .ofDouble p.y)]

def decode (j : Json) : Option Point := do
  match ← record ["x", "y"] j with
  | [x, y] => some ⟨← required Json.double? x, ← required Json.double? y⟩
  | _ => none

end Point

namespace Node

def encode (n : Node) : Option Json :=
  (Json.tryTable Parameter.encode n.parameters).map fun parameters =>
    .object [("identifier", .string n.id), ("nodeType", .string n.type),
      ("position", n.position.encode), ("parameters", parameters)]

def decode (j : Json) : Option Node := do
  match ← record ["identifier", "nodeType", "position", "parameters"] j with
  | [id, type, position, parameters] =>
    some ⟨← required Json.string? id, ← required Json.string? type,
      ← defaulted .origin Point.decode position,
      ← defaulted ∅ (Json.tableOf Parameter.decode) parameters⟩
  | _ => none

end Node

namespace Socket

def encode (s : Socket) : Json := .object [("nodeId", .string s.node), ("socketId", .string s.name)]

def decode (j : Json) : Option Socket := do
  match ← record ["nodeId", "socketId"] j with
  | [node, name] => some ⟨← required Json.string? node, ← required Json.string? name⟩
  | _ => none

end Socket

def Json.given (name : String) : Option Json → List (String × Json)
  | some j => [(name, j)]
  | none => []

namespace Connection

def encode (c : Connection) : Json :=
  .object ([("from", c.source.encode), ("to", c.target.encode)] ++
    Json.given "type" (c.type.map ValueType.encode))

def decode (j : Json) : Option Connection := do
  match ← record ["from", "to", "type"] j with
  | [source, target, type] =>
    some ⟨← required Socket.decode source, ← required Socket.decode target,
      ← optional ValueType.decode type⟩
  | _ => none

end Connection

namespace Uniform

def encode (u : Uniform) : Option Json :=
  (u.default.mapM Parameter.encode).map fun default =>
    .object ([("id", .string u.id), ("type", u.type.encode)] ++ Json.given "defaultValue" default)

def decode (j : Json) : Option Uniform := do
  match ← record ["id", "type", "defaultValue"] j with
  | [id, type, default] =>
    some ⟨← required Json.string? id, ← required ValueType.decode type,
      ← optional Parameter.decode default⟩
  | _ => none

end Uniform
end ShaderNet

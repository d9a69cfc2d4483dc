import ShaderNet.Node
import ShaderNet.Template.Builtin

/-! Kinds of nodes: what each is called and the parameters that new nodes of it get. -/
namespace ShaderNet

inductive Operator where
  | add
  | subtract
  | multiply
  | divide
  deriving DecidableEq, Repr

namespace Operator

def all : List Operator := [add, subtract, multiply, divide]

def name : Operator → String
  | add => "add"
  | subtract => "subtract"
  | multiply => "multiply"
  | divide => "divide"

def label : Operator → String
  | add => "Add"
  | subtract => "Subtract"
  | multiply => "Multiply"
  | divide => "Divide"

def symbol : Operator → String
  | add => "+"
  | subtract => "-"
  | multiply => "*"
  | divide => "/"

end Operator

inductive Ambient where
  | time
  | resolution
  | uv
  | fragCoord
  deriving DecidableEq, Repr

namespace Ambient

def all : List Ambient := [time, resolution, uv, fragCoord]

def name : Ambient → String
  | time => "time"
  | resolution => "resolution"
  | uv => "uv"
  | fragCoord => "frag_coord"

def label : Ambient → String
  | time => "Time"
  | resolution => "Resolution"
  | uv => "UV"
  | fragCoord => "Fragment coordinates"

def identifier : Ambient → String
  | time => "u_time"
  | resolution => "u_resolution"
  | uv => "v_uv"
  | fragCoord => "gl_FragCoord"

def type : Ambient → ValueType
  | time => .float
  | resolution | uv => .vec 2
  | fragCoord => .vec 4

def isUniform : Ambient → Bool
  | time | resolution => true
  | uv | fragCoord => false

end Ambient

inductive NodeKind where
  | literal (base : Scalar)
  | color
  | ambient (value : Ambient)
  | uniform
  | operator (op : Operator)
  | negate
  | cast
  | compose (size : Nat)
  | split
  | swizzle
  | builtin (signature : Signature)
  | function
  | texture
  | sink (label : String)
  deriving DecidableEq

namespace NodeKind

def components : List String := ["x", "y", "z", "w"]

def scalarLabel : Scalar → String
  | .bool => "Bool"
  | .int => "Int"
  | .uint => "Uint"
  | .float => "Float"
  | .double => "Double"

def label : NodeKind → String
  | literal base => scalarLabel base
  | color => "Color"
  | ambient value => value.label
  | uniform => "Uniform"
  | operator op => op.label
  | negate => "Negate"
  | cast => "Cast"
  | compose size => "Vec" ++ toString size
  | split => "Split"
  | swizzle => "Swizzle"
  | builtin signature => signature.name
  | function => "Function"
  | texture => "Texture"
  | sink label => label

def description : NodeKind → String
  | literal base => "Constant " ++ base.name ++ " value"
  | color => "Constant RGBA color"
  | ambient value => quote value.identifier ++ " provided by the renderer"
  | uniform => "Value of a graph uniform"
  | operator op => "a " ++ op.symbol ++ " b"
  | negate => "-a"
  | cast => "Convert a value to another scalar or vector type"
  | compose size => "Build a vec" ++ toString size ++ " from its components"
  | split => "Access every component of a vector"
  | swizzle => "Select and reorder vector components"
  | builtin signature => signature.text
  | function => "Call a function exported by an include"
  | texture => "Sample a texture at the given coordinates"
  | sink _ => "Display a value as a color"

def defaults : NodeKind → Parameters
  | literal .bool => Table.ofList [("value", .boolean false)]
  | literal _ => Table.ofList [("value", .number .zero)]
  | color => Table.ofList [("color", .color .black)]
  | uniform => Table.ofList [("uniform", .text "")]
  | cast => Table.ofList [("type", .text "float")]
  | compose size => Table.ofList ((components.take size).map fun c => (c, .number .zero))
  | swizzle => Table.ofList [("member", .text "x")]
  | function => Table.ofList [("function", .text "")]
  | _ => ∅

def promotesInputs : NodeKind → Bool
  | operator _ | negate | cast | compose _ => true
  | _ => false

end NodeKind

abbrev Registry := Table String NodeKind

namespace Registry

def standard : Registry :=
  Table.ofList
    ([Scalar.float, .int, .uint, .bool].map (fun base => (base.name, NodeKind.literal base)) ++
    [("color", .color)] ++ Ambient.all.map (fun value => (value.name, .ambient value)) ++
    [("custom_uniform", .uniform)] ++ Operator.all.map (fun op => (op.name, .operator op)) ++
    [("negate", .negate), ("cast", .cast), ("vec2", .compose 2), ("vec3", .compose 3),
      ("vec4", .compose 4), ("split", .split), ("swizzle", .swizzle)] ++
    Signature.builtins.map (fun s => (s.name, .builtin s)) ++
    [("function", .function), ("texture", .texture), ("output", .sink "Output"),
      ("preview", .sink "Preview")])

def kind (p : Registry) (type : String) : Except Failure NodeKind :=
  match p.get? type with
  | some kind => .ok kind
  | none => .error (.unknownNodeType type)

def withTypes (p : Registry) : List (String × String) → Except Failure Registry
  | [] => .ok p
  | (type, standardType) :: rest => do
    let kind ← standard.kind standardType
    withTypes (p.insert type kind) rest

end Registry
end ShaderNet

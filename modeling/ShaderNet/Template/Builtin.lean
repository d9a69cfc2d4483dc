import ShaderNet.Template.Basic

/-! Signatures of the functions of the shading language. -/
namespace ShaderNet.Signature

def onTemplate (name : String) (output : Slot) (parameters : List (String × Slot))
    (bases : List Scalar) (sizes : List Nat) : Signature :=
  ⟨name, output, parameters, Table.ofList [("T", ⟨bases, sizes⟩)]⟩

def whole : Slot := .template "T" .whole
def component : Slot := .template "T" .component
def wholeOrComponent : Slot := .template "T" .wholeOrComponent
def boolShaped : Slot := .template "T" .boolShaped

def signed : List Scalar := [.float, .int]
def numeric : List Scalar := [.float, .int, .uint]
def comparable : List Scalar := [.float, .int, .uint, .bool]
def vectorSizes : List Nat := [2, 3, 4]

def onFloats (name : String) (output : Slot) (parameters : List (String × Slot)) : Signature :=
  onTemplate name output parameters [.float] Role.allSizes

def onNumbers (name : String) (parameters : List (String × Slot)) : Signature :=
  onTemplate name whole parameters numeric Role.allSizes

def unary (bases : List Scalar) (name : String) : Signature :=
  onTemplate name whole [("x", whole)] bases Role.allSizes

def comparison (bases : List Scalar) (name : String) : Signature :=
  onTemplate name boolShaped [("x", whole), ("y", whole)] bases vectorSizes

def onTruth (name : String) (output : Slot) : Signature :=
  onTemplate name output [("x", boolShaped)] [.bool] vectorSizes

def builtins : List Signature :=
  ["radians", "degrees", "sin", "cos", "tan", "asin", "acos", "atan", "exp", "log", "exp2", "log2",
    "sqrt", "inversesqrt", "floor", "ceil", "fract", "normalize"].map (unary [.float]) ++
  ["abs", "sign"].map (unary signed) ++
  [onFloats "pow" whole [("x", whole), ("y", whole)],
    onFloats "mod" whole [("x", whole), ("y", wholeOrComponent)],
    onNumbers "min" [("x", whole), ("y", wholeOrComponent)],
    onNumbers "max" [("x", whole), ("y", wholeOrComponent)],
    onNumbers "clamp" [("x", whole), ("minVal", wholeOrComponent), ("maxVal", wholeOrComponent)],
    onFloats "mix" whole [("x", whole), ("y", whole), ("a", wholeOrComponent)],
    onFloats "step" whole [("edge", wholeOrComponent), ("x", whole)],
    onFloats "smoothstep" whole
      [("edge0", wholeOrComponent), ("edge1", wholeOrComponent), ("x", whole)],
    onFloats "length" component [("x", whole)],
    onFloats "distance" component [("p0", whole), ("p1", whole)],
    onFloats "dot" component [("x", whole), ("y", whole)],
    onTemplate "cross" whole [("x", whole), ("y", whole)] [.float] [3],
    onFloats "reflect" whole [("I", whole), ("N", whole)],
    onFloats "refract" whole [("I", whole), ("N", whole), ("eta", component)],
    onFloats "faceforward" whole [("N", whole), ("I", whole), ("Nref", whole)]] ++
  ["lessThan", "lessThanEqual", "greaterThan", "greaterThanEqual"].map (comparison numeric) ++
  ["equal", "notEqual"].map (comparison comparable) ++
  [onTruth "any" (.fixed .bool), onTruth "all" (.fixed .bool), onTruth "not" boolShaped]

def builtin? (name : String) : Option Signature := builtins.find? (fun s => s.name = name)

end ShaderNet.Signature

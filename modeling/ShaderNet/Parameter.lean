import ShaderNet.Number.Decimal
import ShaderNet.PathText

/-! Parameters of nodes: tagged values, read only under their own tag. -/
namespace ShaderNet
open Number (Binary Double Single)

inductive ParameterKind where
  | number
  | boolean
  | text
  | color
  | floatVector
  | path
  deriving DecidableEq, Repr

namespace ParameterKind

def all : List ParameterKind := [number, boolean, text, color, floatVector, path]

def name : ParameterKind → String
  | number => "number"
  | boolean => "boolean"
  | text => "text"
  | color => "color"
  | floatVector => "float_vector"
  | path => "path"

def ofName? (s : String) : Option ParameterKind := all.find? (fun k => k.name = s)

end ParameterKind

structure Color where
  red : Single
  green : Single
  blue : Single
  alpha : Single
  deriving DecidableEq, Repr

def Color.channels (c : Color) : List Single := [c.red, c.green, c.blue, c.alpha]

def Color.black : Color := ⟨.zero, .zero, .zero, .ofInt 1⟩

inductive Parameter where
  | number (x : Double)
  | boolean (b : Bool)
  | text (s : String)
  | color (c : Color)
  | floatVector (xs : List Single)
  | path (p : Path)
  deriving DecidableEq, Repr

namespace Parameter

def kind : Parameter → ParameterKind
  | number _ => .number
  | boolean _ => .boolean
  | text _ => .text
  | color _ => .color
  | floatVector _ => .floatVector
  | path _ => .path

def number? : Parameter → Option Double
  | number x => some x
  | _ => none

def boolean? : Parameter → Option Bool
  | boolean b => some b
  | _ => none

def text? : Parameter → Option String
  | text s => some s
  | _ => none

def color? : Parameter → Option Color
  | color c => some c
  | _ => none

def floatVector? : Parameter → Option (List Single)
  | floatVector xs => some xs
  | _ => none

def path? : Parameter → Option Path
  | path p => some p
  | _ => none

def sameNumbers : List Single → List Single → Bool
  | [], [] => true
  | x :: xs, y :: ys => x.same y && sameNumbers xs ys
  | _, _ => false

/-- Equal as values: the two zeros are equal, a number that is none differs from itself, and paths
compare by their steps. -/
def same : Parameter → Parameter → Bool
  | number x, number y => x.same y
  | boolean a, boolean b => a = b
  | text s, text t => s = t
  | color c, color d => sameNumbers c.channels d.channels
  | floatVector xs, floatVector ys => sameNumbers xs ys
  | path p, path q => p.same q
  | _, _ => false

def sameOption : Option Parameter → Option Parameter → Bool
  | none, none => true
  | some p, some q => p.same q
  | _, _ => false

end Parameter
end ShaderNet

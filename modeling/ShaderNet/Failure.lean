import ShaderNet.Connection
import ShaderNet.Parameter

/-! Why an edit or a compilation is refused, and the wording of each reason. -/
namespace ShaderNet
open Number (Double)

inductive Unsupported where
  | noComponents (type : ValueType)
  | emptyVariant
  | noZero (type : ValueType)
  | unknownTemplate (template signature : String)
  | templateMismatch (connected : ValueType) (template signature : String)
  | templateExhausted (template signature : String)
  | openOperand (socket node : String)
  | unknownTypeName (name : String)
  | castTarget (target : ValueType)
  | cast (source target : ValueType)
  | widening (source target : ValueType)
  | argument (name function : String) (expected got : ValueType)
  | literal (value : Double) (base : Scalar)
  | vectorComponent (name : String) (vector got : ValueType)
  | componentAccess (type : ValueType)
  | selection (member : String)
  | scalarSelection (type : ValueType) (member : String)
  | missingComponent (type : ValueType) (position : Nat)
  | display (type : ValueType)
  | sampling (type : ValueType)
  | coordinates (type : ValueType)
  | noOutput (node : String)
  deriving DecidableEq, Repr

def quote (s : String) : String := "`" ++ s ++ "`"

def ValueType.quoted (t : ValueType) : String := quote t.name

def unknownTypeMessage (name : String) : String := "Unrecognized type " ++ quote name ++ "."

def Unsupported.message : Unsupported → String
  | noComponents type => type.quoted ++ " has no component type"
  | emptyVariant => "empty variant"
  | noZero type => type.quoted ++ " has no default value"
  | unknownTemplate template signature => quote signature ++ " has no template " ++ quote template
  | templateMismatch connected template signature =>
    connected.quoted ++ " cannot be used for template " ++ quote template ++ " of " ++
      quote signature
  | templateExhausted template signature =>
    "template " ++ quote template ++ " of " ++ quote signature ++ " has no possible type left"
  | openOperand socket node =>
    "operand " ++ quote socket ++ " of " ++ quote node ++ " is not connected"
  | unknownTypeName name => unknownTypeMessage name
  | castTarget target =>
    "cannot cast to " ++ target.quoted ++ ", only scalars and vectors are supported"
  | cast source target => "cannot cast " ++ source.quoted ++ " to " ++ target.quoted
  | widening source target => "cannot widen " ++ source.quoted ++ " to " ++ target.quoted
  | argument name function expected got =>
    "argument " ++ quote name ++ " of " ++ quote function ++ " expects " ++ expected.quoted ++
      ", got " ++ got.quoted
  | literal value base =>
    quote value.plainText ++ " cannot be written as a " ++ base.name ++ " literal"
  | vectorComponent name vector got =>
    "component " ++ quote name ++ " of " ++ vector.quoted ++ " expects `float`, got " ++ got.quoted
  | componentAccess type => "cannot access the components of " ++ type.quoted
  | selection member => quote member ++ " is not a valid swizzle"
  | scalarSelection type member =>
    type.quoted ++ " is a scalar, " ++ quote member ++ " cannot be selected"
  | missingComponent type position => type.quoted ++ " has no component " ++ toString position
  | display type => "cannot display " ++ type.quoted
  | sampling type => "cannot sample " ++ type.quoted
  | coordinates type => "texture coordinates must be `vec2`, got " ++ type.quoted
  | noOutput node => "node " ++ quote node ++ " has no output"

structure Place where
  line : Nat
  column : Nat
  deriving DecidableEq, Repr

inductive ExportFault where
  | repeated (name : String)
  | valueType (name : String)
  | qualifier (name : String)
  deriving DecidableEq, Repr

def ExportFault.message : ExportFault → String
  | repeated name => "function " ++ quote name ++ " is exported twice"
  | valueType name =>
    "unsupported type " ++ quote name ++ " (expected one of void, float, vec2, vec3, vec4)"
  | qualifier name =>
    "unsupported parameter qualifier " ++ quote name ++ ", only `in` parameters are allowed"

/-- Why a source fragment has no exports: its text does not read, or one of them is at fault. The
last place is the first one after the faulty part. -/
inductive FragmentError where
  | malformed (path : String)
  | faulty (path : String) (first last : Place) (fault : ExportFault)
  deriving DecidableEq, Repr

def FragmentError.message : FragmentError → String
  | malformed path => path ++ ": syntax error"
  | faulty path first _ fault =>
    path ++ ":" ++ toString first.line ++ ":" ++ toString first.column ++ ": " ++ fault.message

inductive Failure where
  | nodeMissing (node : String)
  | socketMissing (node socket : String)
  | parameterMismatch (node name : String) (expected got : ParameterKind)
  | unknownNodeType (type : String)
  | duplicateConnection (connection : String)
  | inputOccupied (socket : Socket)
  | duplicateNode (node : String)
  | uniformMissing (uniform : String)
  | functionMissing (function : String)
  | unsupported (cause : Unsupported)
  | fragment (error : FragmentError)
  | cyclic (nodes : List String)
  | outOfRange (stop length : Nat)
  deriving DecidableEq, Repr

def Failure.message : Failure → String
  | nodeMissing node => "Node " ++ quote node ++ " does not exist"
  | socketMissing node socket => "Node " ++ quote node ++ " has no socket " ++ quote socket
  | parameterMismatch node name expected got =>
    "Parameter " ++ quote name ++ " of node " ++ quote node ++ " holds a " ++ got.name ++
      " value, expected " ++ expected.name
  | unknownNodeType type => "Unknown node type " ++ quote type
  | duplicateConnection connection => "Connection " ++ quote connection ++ " already exists"
  | inputOccupied socket => "Input " ++ quote socket.text ++ " is already connected"
  | duplicateNode node => "Node identifier " ++ quote node ++ " is already in use"
  | uniformMissing uniform => "Uniform " ++ quote uniform ++ " does not exist"
  | functionMissing function =>
    "Function " ++ quote function ++ " is not exported by any include"
  | unsupported cause => cause.message
  | fragment error => error.message
  | cyclic nodes => "Detected a cycle through " ++ " -> ".intercalate nodes
  | outOfRange stop length =>
    "range end index " ++ toString stop ++ " out of range for slice of length " ++ toString length

end ShaderNet

import ShaderNet.Failure
import ShaderNet.Table

/-! Generic functions. A template stands for a family of types; every type connected to a parameter
narrows the family. -/
namespace ShaderNet

/-- Bases and sizes a template may still take; size one stands for a scalar. -/
structure Constraint where
  bases : List Scalar
  sizes : List Nat
  deriving DecidableEq, Repr

namespace Constraint

def none : Constraint := ⟨[], []⟩

def isEmpty (c : Constraint) : Bool := c.bases.isEmpty || c.sizes.isEmpty

def intersect (c d : Constraint) : Constraint :=
  ⟨c.bases.filter (· ∈ d.bases), c.sizes.filter (· ∈ d.sizes)⟩

def union (c d : Constraint) : Constraint :=
  ⟨d.bases.foldl (fun l b => if b ∈ l then l else l ++ [b]) c.bases,
    d.sizes.foldl (fun l n => if n ∈ l then l else l ++ [n]) c.sizes⟩

def collapse (c : Constraint) : Constraint := ⟨c.bases.take 1, c.sizes.take 1⟩

end Constraint

/-- How a parameter follows its template: the type itself, that of its components, either of the
two, or truth values of the same shape. -/
inductive Role where
  | whole
  | component
  | wholeOrComponent
  | boolShaped
  deriving DecidableEq, Repr

namespace Role

def allSizes : List Nat := [1, 2, 3, 4]

def admits (role : Role) (type : ValueType) : Constraint :=
  match type.base?, type.size? with
  | some base, some size =>
    match role with
    | whole => ⟨[base], [size]⟩
    | component => if size = 1 then ⟨[base], allSizes⟩ else .none
    | wholeOrComponent => if size = 1 then ⟨[base], allSizes⟩ else ⟨[base], [size]⟩
    | boolShaped => if base = .bool then ⟨Scalar.all, [size]⟩ else .none
  | _, _ => .none

def admitsAny (role : Role) (type : ValueType) : Constraint :=
  match type.alternatives.map role.admits with
  | [] => .none
  | c :: rest => rest.foldl Constraint.union c

def types (role : Role) (c : Constraint) : ValueType :=
  match role with
  | whole => .oneOf (c.bases.flatMap fun base => c.sizes.map (ValueType.shaped base))
  | component => .oneOf (c.bases.map .scalar)
  | wholeOrComponent =>
    .oneOf (c.bases.flatMap fun base => c.sizes.map (ValueType.shaped base) ++ [.scalar base])
  | boolShaped => .oneOf (c.sizes.map (ValueType.shaped .bool))

end Role

inductive Slot where
  | fixed (type : ValueType)
  | template (name : String) (role : Role)
  deriving DecidableEq, Repr

structure Signature where
  name : String
  output : Slot
  parameters : List (String × Slot)
  templates : Table String Constraint
  deriving DecidableEq

def Signature.text (s : Signature) : String :=
  s.name ++ "(" ++ ", ".intercalate (s.parameters.map Prod.fst) ++ ")"

structure Narrowing where
  signature : Signature
  constraints : Table String Constraint
  deriving DecidableEq

namespace Narrowing

def start (s : Signature) : Narrowing := ⟨s, s.templates⟩

def constraintOf (n : Narrowing) (template : String) : Except Unsupported Constraint :=
  match n.constraints.get? template with
  | some c => .ok c
  | none => .error (.unknownTemplate template n.signature.text)

def narrow (n : Narrowing) (slot : Slot) (connected : ValueType) : Except Unsupported Narrowing :=
  match slot with
  | .fixed _ => .ok n
  | .template name role => do
    let left := (← n.constraintOf name).intersect (role.admitsAny connected)
    if left.isEmpty then .error (.templateMismatch connected name n.signature.text)
    else .ok { n with constraints := n.constraints.insert name left }

def collapse (n : Narrowing) : Narrowing :=
  { n with constraints := n.constraints.mapValues fun _ c => c.collapse }

def resolve (n : Narrowing) : Slot → Except Unsupported ValueType
  | .fixed type => .ok type
  | .template name role => do
    match role.types (← n.constraintOf name) with
    | .broken => .error (.templateExhausted name n.signature.text)
    | type => .ok type

end Narrowing
end ShaderNet

/-! Types of the values that flow along connections, and their names in shader source. -/
namespace ShaderNet

inductive Scalar where
  | bool
  | int
  | uint
  | float
  | double
  deriving DecidableEq, Repr

namespace Scalar

def numeric : List Scalar := [float, double, int, uint]

def all : List Scalar := numeric ++ [bool]

def name : Scalar → String
  | bool => "bool"
  | int => "int"
  | uint => "uint"
  | float => "float"
  | double => "double"

def vectorMark : Scalar → String
  | bool => "b"
  | int => "i"
  | uint => "u"
  | float => ""
  | double => "d"

def matrixMark (b : Scalar) : String := if b = double then "d" else ""

def zero : Scalar → String
  | bool => "false"
  | int => "0"
  | uint => "0u"
  | float => "0.0"
  | double => "0.0lf"

def rank : Scalar → Option Nat
  | bool => none
  | int => some 0
  | uint => some 1
  | float => some 2
  | double => some 3

end Scalar

inductive ValueType where
  | scalar (base : Scalar)
  | vector (base : Scalar) (size : Nat)
  | matrix (base : Scalar) (rows cols : Nat)
  | variant (alternatives : List ValueType)
  | sampler
  | broken
  deriving Repr

namespace ValueType

instance : Inhabited ValueType := ⟨broken⟩

mutual

def decEq : (t u : ValueType) → Decidable (t = u)
  | .scalar a, .scalar b => if h : a = b then .isTrue (by rw [h]) else .isFalse (by simp [h])
  | .vector a m, .vector b n =>
    if h : a = b ∧ m = n then .isTrue (by rw [h.1, h.2]) else .isFalse (by simpa using h)
  | .matrix a r c, .matrix b s d =>
    if h : a = b ∧ r = s ∧ c = d then .isTrue (by rw [h.1, h.2.1, h.2.2])
    else .isFalse (by simpa using h)
  | .variant xs, .variant ys =>
    match decEqList xs ys with
    | .isTrue h => .isTrue (by rw [h])
    | .isFalse h => .isFalse (by simp [h])
  | .sampler, .sampler => .isTrue rfl
  | .broken, .broken => .isTrue rfl
  | .scalar _, .vector .. | .scalar _, .matrix .. | .scalar _, .variant _ | .scalar _, .sampler
  | .scalar _, .broken | .vector .., .scalar _ | .vector .., .matrix .. | .vector .., .variant _
  | .vector .., .sampler | .vector .., .broken | .matrix .., .scalar _ | .matrix .., .vector ..
  | .matrix .., .variant _ | .matrix .., .sampler | .matrix .., .broken | .variant _, .scalar _
  | .variant _, .vector .. | .variant _, .matrix .. | .variant _, .sampler | .variant _, .broken
  | .sampler, .scalar _ | .sampler, .vector .. | .sampler, .matrix .. | .sampler, .variant _
  | .sampler, .broken | .broken, .scalar _ | .broken, .vector .. | .broken, .matrix ..
  | .broken, .variant _ | .broken, .sampler => .isFalse (by simp)

def decEqList : (ts us : List ValueType) → Decidable (ts = us)
  | [], [] => .isTrue rfl
  | [], _ :: _ => .isFalse (by simp)
  | _ :: _, [] => .isFalse (by simp)
  | t :: ts, u :: us =>
    match decEq t u with
    | .isTrue h =>
      match decEqList ts us with
      | .isTrue h' => .isTrue (by rw [h, h'])
      | .isFalse h' => .isFalse (by simp [h'])
    | .isFalse h => .isFalse (by simp [h])

end

instance : DecidableEq ValueType := decEq

abbrev float : ValueType := .scalar .float
abbrev bool : ValueType := .scalar .bool
abbrev vec (size : Nat) : ValueType := .vector .float size

def shaped (base : Scalar) (size : Nat) : ValueType :=
  if size = 1 then .scalar base else .vector base size

def alternatives : ValueType → List ValueType
  | .variant ts => ts
  | t => [t]

def first (t : ValueType) : ValueType := t.alternatives.head?.getD t

def append (flat : List ValueType) (t : ValueType) : List ValueType :=
  if t ∈ flat then flat else flat ++ [t]

/-- One of several types: nested variants are opened, repetitions dropped, and a single type left
stands for itself. -/
def oneOf (ts : List ValueType) : ValueType :=
  match (ts.flatMap alternatives).foldl append [] with
  | [] => .broken
  | [t] => t
  | flat => .variant flat

def anyOver (bases : List Scalar) : ValueType :=
  oneOf (bases.flatMap fun base => [1, 2, 3, 4].map (shaped base))

def anyNumeric : ValueType := anyOver Scalar.numeric
def anyScalarOrVector : ValueType := anyOver Scalar.all

def base? : ValueType → Option Scalar
  | .scalar base | .vector base _ | .matrix base _ _ => some base
  | _ => none

def size? : ValueType → Option Nat
  | .scalar _ => some 1
  | .vector _ size => some size
  | _ => none

def isScalar : ValueType → Bool
  | .scalar _ => true
  | _ => false

def isVector : ValueType → Bool
  | .vector .. => true
  | _ => false

def component? : ValueType → Option ValueType
  | .scalar base | .vector base _ | .matrix base _ _ => some (.scalar base)
  | _ => none

mutual

/-- The name in shader source; columns come first in the name of a matrix. -/
def name : ValueType → String
  | .scalar base => base.name
  | .vector base size => base.vectorMark ++ "vec" ++ toString size
  | .matrix base rows cols =>
    base.matrixMark ++ "mat" ++ toString cols ++ (if rows = cols then "" else "x" ++ toString rows)
  | .variant ts => " | ".intercalate (names ts)
  | .sampler => "sampler2D"
  | .broken => "<error>"

def names : List ValueType → List String
  | [] => []
  | t :: ts => t.name :: names ts

end

end ValueType
end ShaderNet

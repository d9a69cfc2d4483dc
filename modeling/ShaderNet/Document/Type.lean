import ShaderNet.Document.Field
import ShaderNet.ValueType.Basic

/-! Types in documents: tagged objects, or arrays that start with the tag. Reading checks dimensions
and bases and opens nested variants. -/
namespace ShaderNet

def Scalar.ofName? (s : String) : Option Scalar := Scalar.all.find? (fun b => b.name = s)

namespace ValueType

mutual

def encode : ValueType → Json
  | .scalar base => .object [("kind", .string "scalar"), ("base", .string base.name)]
  | .vector base size =>
    .object [("kind", .string "vector"), ("base", .string base.name), ("size", .natural size)]
  | .matrix base rows cols =>
    .object [("kind", .string "matrix"), ("base", .string base.name), ("rows", .natural rows),
      ("cols", .natural cols)]
  | .variant ts => .object [("kind", .string "variant"), ("alternatives", .array (encodeAll ts))]
  | .sampler => .object [("kind", .string "sampler2D")]
  | .broken => .object [("kind", .string "error")]

def encodeAll : List ValueType → List Json
  | [] => []
  | t :: ts => t.encode :: encodeAll ts

end

inductive Kind where
  | scalar
  | vector
  | matrix
  | variant
  | sampler
  | broken
  deriving DecidableEq, Repr

def Kind.all : List Kind := [scalar, vector, matrix, variant, sampler, broken]

def Kind.name : Kind → String
  | scalar => "scalar"
  | vector => "vector"
  | matrix => "matrix"
  | variant => "variant"
  | sampler => "sampler2D"
  | broken => "error"

def Kind.decode (nested : Bool) : Json → Option Kind
  | .string s => all.find? (fun k => k.name = s)
  | .integer n => if nested ∧ 0 ≤ n then all[n.toNat]? else none
  | _ => none

def decodeBase : Json → Option Scalar := Json.choice? Json.isHollow Scalar.ofName?

def decodeDimension (j : Json) : Option Nat := (j.natural? 256).filter (fun n => 2 ≤ n && n ≤ 4)

def decodeMatrixBase (j : Json) : Option Scalar :=
  (decodeBase j).filter (fun b => b = .float || b = .double)

abbrev Given := Json × Option (List ValueType)

def ofGiven : Kind → List (Option Given) → Option ValueType
  | .scalar, [some base] => (decodeBase base.1).map .scalar
  | .vector, [some base, some size] => do
    some (.vector (← decodeBase base.1) (← decodeDimension size.1))
  | .matrix, [some base, some rows, some cols] => do
    some (.matrix (← decodeMatrixBase base.1) (← decodeDimension rows.1) (← decodeDimension cols.1))
  | .variant, [some alternatives] => alternatives.2.map oneOf
  | .sampler, [] => some .sampler
  | .broken, [] => some .broken
  | _, _ => none

def Kind.fields : Kind → List String
  | scalar => ["base"]
  | vector => ["base", "size"]
  | matrix => ["base", "rows", "cols"]
  | variant => ["alternatives"]
  | sampler | broken => []

def uniqueGiven (fields : List (String × Given)) (name : String) : Option (Option Given) :=
  match fields.filter (fun p => p.1 = name) with
  | [] => some none
  | [p] => some (some p.2)
  | _ => none

def ofFields (nested : Bool) (fields : List (String × Given)) : Option ValueType := do
  let tag ← ← uniqueGiven fields "kind"
  let kind ← Kind.decode nested tag.1
  ofGiven kind (← kind.fields.mapM (uniqueGiven fields))

def ofItems (nested : Bool) : List Given → Option ValueType
  | [] => none
  | tag :: rest => do
    let kind ← Kind.decode nested tag.1
    ofGiven kind (rest.map some)

mutual

def decodeWithin (nested : Bool) : Json → Option ValueType
  | .object fields => ofFields nested (givenFields fields)
  | .array items => ofItems nested (givenItems items)
  | _ => none

def decodeList : Json → Option (List ValueType)
  | .array items => decodeAll items
  | _ => none

def decodeAll : List Json → Option (List ValueType)
  | [] => some []
  | j :: rest => do
    let t ← decodeWithin true j
    let ts ← decodeAll rest
    some (t :: ts)

def givenFields : List (String × Json) → List (String × Given)
  | [] => []
  | (name, j) :: rest => (name, j, decodeList j) :: givenFields rest

def givenItems : List Json → List Given
  | [] => []
  | j :: rest => (j, decodeList j) :: givenItems rest

end

def decode (j : Json) : Option ValueType := if j.isReadable then decodeWithin false j else none

end ValueType
end ShaderNet

import ShaderNet.Json.Basic
import ShaderNet.Table

/-! Reading values out of document trees. -/
namespace ShaderNet.Json
open Number (Binary Double Single)

mutual

def isReadable : Json → Bool
  | .unreadable => false
  | .array items => areReadable items
  | .object fields => fieldsReadable fields
  | _ => true

def areReadable : List Json → Bool
  | [] => true
  | j :: rest => j.isReadable && areReadable rest

def fieldsReadable : List (String × Json) → Bool
  | [] => true
  | (_, j) :: rest => j.isReadable && fieldsReadable rest

end

def string? : Json → Option String
  | .string s => some s
  | _ => none

def bool? : Json → Option Bool
  | .bool b => some b
  | _ => none

def natural? (limit : Nat) : Json → Option Nat
  | .integer n => if 0 ≤ n ∧ n < limit then some n.toNat else none
  | _ => none

def double? : Json → Option Double
  | .integer n => some (.ofInt n)
  | .double x => some x
  | .single x => some x.convert
  | _ => none

def single? : Json → Option Single
  | .integer n => some (.ofInt n)
  | .double x => some x.convert
  | .single x => some x
  | _ => none

def listOf (decode : Json → Option α) : Json → Option (List α)
  | .array items => items.mapM decode
  | _ => none

/-- The last of repeated keys wins, but every value has to be good. -/
def tableOf (decode : Json → Option α) : Json → Option (Table String α)
  | .object fields => do
    let entries ← fields.mapM fun p => (decode p.2).map (fun v => (p.1, v))
    some (Table.ofList entries)
  | _ => none

def unique? (fields : List (String × Json)) (name : String) : Option (Option Json) :=
  match fields.filter (fun p => p.1 = name) with
  | [] => some none
  | [p] => some (some p.2)
  | _ => none

/-- The values of named fields, from an object, or by position from an array that may end early.
Fields without a name here are passed over. -/
def record (names : List String) : Json → Option (List (Option Json))
  | .object fields => names.mapM (unique? fields)
  | .array items =>
    if items.length ≤ names.length then
      some (items.map some ++ List.replicate (names.length - items.length) none)
    else none
  | _ => none

def required (decode : Json → Option α) : Option Json → Option α
  | some j => decode j
  | none => none

def defaulted (default : α) (decode : Json → Option α) : Option Json → Option α
  | some j => decode j
  | none => some default

def optional (decode : Json → Option α) : Option Json → Option (Option α)
  | none | some .null => some none
  | some j => (decode j).map some

def choice? (hollow : Json → Bool) (named : String → Option α) : Json → Option α
  | .string s => named s
  | .object [(s, j)] => if hollow j then named s else none
  | _ => none

def isNull : Json → Bool
  | .null => true
  | _ => false

def isObject : Json → Bool
  | .object _ => true
  | _ => false

def isHollow : Json → Bool
  | .null | .object [] => true
  | _ => false

def ofDouble (x : Double) : Json := if x.isFinite then .double x else .null
def ofSingle (x : Single) : Json := if x.isFinite then .single x else .null

def ofList (encode : α → Json) (l : List α) : Json := .array (l.map encode)

def tryTable (encode : α → Option Json) (t : Table String α) : Option Json :=
  (t.entries.mapM fun p => (encode p.2).map fun j => (p.1, j)).map .object

def tryList (encode : α → Option Json) (l : List α) : Option Json := (l.mapM encode).map .array

end ShaderNet.Json

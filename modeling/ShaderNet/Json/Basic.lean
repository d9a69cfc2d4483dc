import ShaderNet.Number.Decimal

/-! Document trees. Fields keep the order in which they are written, and a number keeps the
precision it is written with. -/
namespace ShaderNet
open Number (Double Single)

/-- `unreadable` is well-formed text that stands for no value: a number out of range, a text with
half of a surrogate pair, or brackets nested too deeply. It may only stand where it is skipped. -/
inductive Json where
  | null
  | bool (b : Bool)
  | integer (n : Int)
  | double (x : Double)
  | single (x : Single)
  | string (s : String)
  | array (items : List Json)
  | object (fields : List (String × Json))
  | unreadable

namespace Json

instance : Inhabited Json := ⟨null⟩

def natural (n : Nat) : Json := .integer n

def ofOption (encode : α → Json) : Option α → Json
  | some a => encode a
  | none => .null

def strings (l : List String) : Json := .array (l.map .string)

def field? : Json → String → Option Json
  | .object fields, name => (fields.reverse.find? (fun p => p.1 = name)).map Prod.snd
  | _, _ => none

end Json
end ShaderNet

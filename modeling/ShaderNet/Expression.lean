import ShaderNet.Failure
import ShaderNet.Table

/-! What a node compiles to: an expression for every output, and the variables they rely on. -/
namespace ShaderNet

/-- A trivial expression may be repeated wherever it is used. -/
structure Expression where
  type : ValueType
  text : String
  trivial : Bool
  deriving DecidableEq, Repr

namespace Expression

def compound (type : ValueType) (text : String) : Expression := ⟨type, text, false⟩
def simple (type : ValueType) (text : String) : Expression := ⟨type, text, true⟩

def displayed (e : Expression) : Except Unsupported Expression :=
  match e.type.base?, e.type.size? with
  | some base, some size =>
    match size with
    | 1 => .ok (compound (.vec 4) ("vec4(vec3(" ++ e.text ++ "), 1.0)"))
    | 2 => .ok (compound (.vec 4) ("vec4(" ++ e.text ++ ", 0.0, 1.0)"))
    | 3 => .ok (compound (.vec 4) ("vec4(" ++ e.text ++ ", 1.0)"))
    | _ => .ok (if base = .float then e else compound (.vec 4) ("vec4(" ++ e.text ++ ")"))
  | _, _ => .error (.display e.type)

end Expression

structure Binding where
  name : String
  type : ValueType
  text : String
  deriving DecidableEq, Repr

structure Compiled where
  bindings : List Binding
  outputs : Table String Expression
  deriving DecidableEq

namespace Compiled

def empty : Compiled := ⟨[], ∅⟩

instance : Inhabited Compiled := ⟨empty⟩

def withOutput (c : Compiled) (socket : String) (e : Expression) : Compiled :=
  { c with outputs := c.outputs.insert socket e }

def single (socket : String) (e : Expression) : Compiled := empty.withOutput socket e

def hoist (c : Compiled) (name : String) (e : Expression) : Compiled × Expression :=
  if e.trivial then (c, e)
  else ({ c with bindings := c.bindings ++ [⟨name, e.type, e.text⟩] }, .simple e.type name)

end Compiled
end ShaderNet

import ShaderNet.Expression
import ShaderNet.Node

/-! Recipes: how a node is made from its inputs. A recipe asks for one input after the other and
goes on with what it is told, so that whoever runs it decides where inputs come from. -/
namespace ShaderNet
open Number (Double)

inductive Recipe (α : Type) where
  | done (result : α)
  | fail (failure : Failure)
  | ask (input : String) (next : Option Expression → Recipe α)

namespace Recipe

variable {α β σ : Type}

def bind : Recipe α → (α → Recipe β) → Recipe β
  | .done a, f => f a
  | .fail e, _ => .fail e
  | .ask input next, f => .ask input fun answer => (next answer).bind f

instance : Monad Recipe where
  pure := .done
  bind := bind

def input (name : String) : Recipe (Option Expression) := .ask name .done

def inputType (name : String) : Recipe (Option ValueType) := do
  return (← input name).map Expression.type

def refuse (cause : Unsupported) : Recipe α := .fail (.unsupported cause)

def ofExcept : Except Unsupported α → Recipe α
  | .ok a => .done a
  | .error cause => refuse cause

def parameter (node : Node) (name : String) (kind : ParameterKind) (read : Parameter → Option α)
    (default : α) : Recipe α :=
  match node.parameters.get? name with
  | none => .done default
  | some p =>
    match read p with
    | some a => .done a
    | none => .fail (.parameterMismatch node.id name kind p.kind)

def text (node : Node) (name default : String) : Recipe String :=
  parameter node name .text Parameter.text? default

def number (node : Node) (name : String) : Recipe Double :=
  parameter node name .number Parameter.number? .zero

/-- Follow a recipe with a way to answer its questions that may change a state. A failure keeps the
state it arose in. -/
def run (answer : String → σ → Except Failure (Option Expression) × σ) :
    Recipe α → σ → Except Failure α × σ
  | .done a, s => (.ok a, s)
  | .fail e, s => (.error e, s)
  | .ask name next, s =>
    match answer name s with
    | (.ok e, s) => (next e).run answer s
    | (.error e, s) => (.error e, s)

end Recipe
end ShaderNet

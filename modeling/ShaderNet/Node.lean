import ShaderNet.Parameter
import ShaderNet.Table

/-! Nodes of a net: an operation, its place on the canvas and its parameters. -/
namespace ShaderNet
open Number (Double)

structure Point where
  x : Double
  y : Double
  deriving DecidableEq, Repr

namespace Point

def origin : Point := ⟨.zero, .zero⟩
def shift (p : Point) (dx dy : Double) : Point := ⟨p.x.add dx, p.y.add dy⟩
def same (p q : Point) : Bool := p.x.same q.x && p.y.same q.y

end Point

abbrev Parameters := Table String Parameter

namespace Parameters

def same (p q : Parameters) : Bool := Table.agrees Parameter.same p q

end Parameters

structure Node where
  id : String
  type : String
  position : Point
  parameters : Parameters
  deriving DecidableEq

namespace Node

def named (id type : String) : Node := ⟨id, type, .origin, ∅⟩

def sameContent (n m : Node) : Bool := n.type = m.type && n.parameters.same m.parameters

def same (n m : Node) : Bool := n.id = m.id && n.position.same m.position && n.sameContent m

end Node
end ShaderNet

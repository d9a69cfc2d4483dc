import ShaderNet.Parameter
import ShaderNet.ValueType.Basic

/-! Uniforms: named inputs of the whole shader. -/
namespace ShaderNet

structure Uniform where
  id : String
  type : ValueType
  default : Option Parameter
  deriving DecidableEq, Repr

namespace Uniform

def same (u v : Uniform) : Bool :=
  u.id = v.id && u.type = v.type && Parameter.sameOption u.default v.default

end Uniform
end ShaderNet

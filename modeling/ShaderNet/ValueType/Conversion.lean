import ShaderNet.ValueType.Basic

/-! When a value of one type may feed a socket of another: as it is, or promoted along
`int → uint → float → double`. -/
namespace ShaderNet

def Scalar.promotes (source target : Scalar) : Bool :=
  match source.rank, target.rank with
  | some m, some n => m ≤ n
  | none, none => true
  | _, _ => false

namespace ValueType

def promotes : ValueType → ValueType → Bool
  | .scalar a, .scalar b => a.promotes b
  | .vector a m, .vector b n => m = n && a.promotes b
  | .matrix a r c, .matrix b s d => r = s && c = d && a.promotes b
  | _, _ => false

mutual

def feedsImplicitly (source : ValueType) : ValueType → Bool
  | .variant ts => source = .variant ts || feedsAnyImplicitly source ts
  | target => source = target || source.promotes target

def feedsAnyImplicitly (source : ValueType) : List ValueType → Bool
  | [] => false
  | t :: ts => feedsImplicitly source t || feedsAnyImplicitly source ts

end

mutual

def convertsImplicitly (target : ValueType) : ValueType → Bool
  | .variant ts => .variant ts = target || allConvertImplicitly target ts
  | source => feedsImplicitly source target

def allConvertImplicitly (target : ValueType) : List ValueType → Bool
  | [] => true
  | t :: ts => convertsImplicitly target t && allConvertImplicitly target ts

end

mutual

def convertsStrictly (source : ValueType) : ValueType → Bool
  | .variant ts => source = .variant ts || anyConvertsStrictly source ts
  | target => source = target

def anyConvertsStrictly (source : ValueType) : List ValueType → Bool
  | [] => false
  | t :: ts => convertsStrictly source t || anyConvertsStrictly source ts

end

def toImplicitly (source target : ValueType) : Bool := convertsImplicitly target source
def toStrictly (source target : ValueType) : Bool := convertsStrictly source target

end ValueType
end ShaderNet

import ShaderNet.Failure

/-! Component types and zero values, with the reasons why some types have none. -/
namespace ShaderNet.ValueType

def component (t : ValueType) : Except Unsupported ValueType :=
  match t.component? with
  | some c => .ok c
  | none => .error (.noComponents t)

def filled (t : ValueType) (count : Nat) (argument : String) : String :=
  t.name ++ "(" ++ ", ".intercalate (List.replicate count argument) ++ ")"

mutual

def zero : ValueType → Except Unsupported String
  | .scalar base => .ok base.zero
  | .vector base size => .ok (filled (.vector base size) size base.zero)
  | .matrix base rows cols => .ok (filled (.matrix base rows cols) (rows * cols) base.zero)
  | .variant ts => zeroOfFirst ts
  | .sampler => .error (.noZero .sampler)
  | .broken => .error (.noZero .broken)

def zeroOfFirst : List ValueType → Except Unsupported String
  | [] => .error .emptyVariant
  | t :: _ => zero t

end

end ShaderNet.ValueType

import ShaderNet.Text
import ShaderNet.ValueType.Basic

/-! Types read from their names. -/
namespace ShaderNet.ValueType

def decimal? : Nat → List Char → Option Nat
  | n, [] => some n
  | n, c :: cs => if '0' ≤ c ∧ c ≤ '9' then decimal? (n * 10 + (c.toNat - 48)) cs else none

/-- A number from two to four, in decimal; a plus sign and leading zeros may precede it. -/
def dimension? (cs : List Char) : Option Nat :=
  let digits := match cs with
    | '+' :: rest => rest
    | rest => rest
  if digits.isEmpty then none
  else (decimal? 0 digits).filter (fun n => 2 ≤ n && n ≤ 4)

def splitAtX? : List Char → Option (List Char × List Char)
  | [] => none
  | c :: cs => if c = 'x' then some ([], cs) else (splitAtX? cs).map (fun p => (c :: p.1, p.2))

def vectorNamed? (cs : List Char) : List Scalar → Option (Option ValueType)
  | [] => none
  | base :: rest =>
    match Text.after? (base.vectorMark.toList ++ ['v', 'e', 'c']) cs with
    | some size => some ((dimension? size).map (.vector base))
    | none => vectorNamed? cs rest

def matrixNamed? (cs : List Char) : List Scalar → Option (Option ValueType)
  | [] => none
  | base :: rest =>
    match Text.after? (base.matrixMark.toList ++ ['m', 'a', 't']) cs with
    | some dimensions => some <|
      match splitAtX? dimensions with
      | some (cols, rows) => do
        let rows ← dimension? rows
        let cols ← dimension? cols
        some (.matrix base rows cols)
      | none => (dimension? dimensions).map fun n => .matrix base n n
    | none => matrixNamed? cs rest

def ofName? (s : String) : Option ValueType :=
  if s = "sampler2D" then some .sampler
  else match Scalar.all.find? (fun base => base.name = s) with
    | some base => some (.scalar base)
    | none =>
      match vectorNamed? s.toList Scalar.all with
      | some answer => answer
      | none => (matrixNamed? s.toList [.float, .double]).getD none

end ShaderNet.ValueType

import ShaderNet.Number.Binary

/-! Decimal numerals of binary numbers. Writing takes the fewest digits that read back as the
number; of the numerals with that many digits it takes the nearest one. -/
namespace ShaderNet.Number

def tenTo (n : Nat) : Nat := Nat.pow 10 n

structure Decimal where
  digits : Nat
  exponent : Int
  deriving DecidableEq, Repr

inductive Tie where
  | up
  | even
  deriving DecidableEq, Repr

def decimalLength (n : Nat) : Nat := (Nat.toDigits 10 n).length

def floorLogTen (n d : Nat) : Int :=
  if d ≤ n then decimalLength (n / d) - 1
  else
    let l := decimalLength (d / n)
    if d ≤ n * tenTo (l - 1) then 1 - l else -l

namespace Decimal

def toBinary {f : Format} (negative : Bool) (x : Decimal) : Binary f :=
  Binary.ofRatio negative (x.digits * tenTo x.exponent.toNat) (tenTo (-x.exponent).toNat)

def readsAs (f : Format) (word : Nat) (x : Decimal) : Bool :=
  decide (x.toBinary false = (Binary.ofWord false word : Binary f))

def tidy (x : Decimal) : Decimal :=
  if x.digits % 10 = 0 then ⟨x.digits / 10, x.exponent + 1⟩ else x

def near? (f : Format) (tie : Tie) (word n d : Nat) (top : Int) (count : Nat) : Option Decimal :=
  let unit : Int := top + 1 - count
  let num := n * tenTo (-unit).toNat
  let den := d * tenTo unit.toNat
  let low := num / den
  let below : Decimal := ⟨low, unit⟩
  let above : Decimal := ⟨low + 1, unit⟩
  match readsAs f word below, readsAs f word above with
  | false, false => none
  | true, false => some below
  | false, true => some above
  | true, true =>
    let rest := 2 * (num % den)
    if rest < den then some below
    else if den < rest then some above
    else match tie with
      | .up => some above
      | .even => some (if low % 2 = 0 then below else above)

def exact (n : Nat) (q : Int) : Decimal :=
  if 0 ≤ q then ⟨n * twoTo q.toNat, 0⟩ else ⟨n * Nat.pow 5 (-q).toNat, q⟩

/-- The shortest numeral of a positive number. Seventeen digits are enough for the formats in use;
past them all digits are written. -/
def shortest (f : Format) (tie : Tie) (word : Nat) : Decimal :=
  let m := f.significand word
  let q := f.scale word
  let n := m * twoTo q.toNat
  let d := twoTo (-q).toNat
  let top := floorLogTen n d
  match (List.range' 1 17).findSome? (near? f tie word n d top) with
  | some x => x.tidy
  | none => exact m q

def zeros (n : Nat) : List Char := List.replicate n '0'

def positional (x : Decimal) : List Char :=
  let ds := Nat.toDigits 10 x.digits
  if 0 ≤ x.exponent then ds ++ zeros x.exponent.toNat
  else
    let point := (ds.length : Int) + x.exponent
    if 0 < point then ds.take point.toNat ++ '.' :: ds.drop point.toNat
    else '0' :: '.' :: zeros (-point).toNat ++ ds

def scientific (x : Decimal) : List Char :=
  let ds := Nat.toDigits 10 x.digits
  let power := (ds.length : Int) + x.exponent - 1
  let tail := if power < 0 then '-' :: Nat.toDigits 10 power.natAbs else Nat.toDigits 10 power.natAbs
  match ds with
  | [] => []
  | [c] => c :: 'e' :: tail
  | c :: rest => c :: '.' :: rest ++ 'e' :: tail

end Decimal

/-- Where the point may stand, counted from the first digit, for a numeral to be written without an
exponent. -/
structure PointRange where
  low : Int
  high : Int
  deriving DecidableEq, Repr

namespace Binary

def documentText {f : Format} (range : PointRange) : Binary f → Option String
  | .finite s w =>
    let sign := if s then ['-'] else []
    if w.val = 0 then some (String.ofList (sign ++ ['0', '.', '0']))
    else
      let x := Decimal.shortest f .even w
      let point := (decimalLength x.digits : Int) + x.exponent
      let body :=
        if point < range.low ∨ range.high < point then x.scientific
        else if 0 ≤ x.exponent then x.positional ++ ['.', '0']
        else x.positional
      some (String.ofList (sign ++ body))
  | _ => none

def plainText {f : Format} : Binary f → String
  | .nan => "NaN"
  | .infinite s => if s then "-inf" else "inf"
  | .finite s w =>
    let sign := if s then ['-'] else []
    let body := if w.val = 0 then ['0'] else (Decimal.shortest f .up w).positional
    String.ofList (sign ++ body)

end Binary

namespace Double

def documentText : Double → Option String := Binary.documentText ⟨-4, 16⟩

def powerOfTen (k : Nat) : Double := .ofRatio false (tenTo k) 1

def scaleDown : Nat → Double → Nat → Double
  | 0, x, _ => x
  | steps + 1, x, k =>
    if k ≤ 308 then x.div (powerOfTen k)
    else if x.same .zero then x
    else scaleDown steps (x.div (powerOfTen 308)) (k - 308)

/-- The value read from a significand and a power of ten: the significand is rounded first and then
scaled, so a long numeral may differ from the nearest number in its last place. Values past the
largest number are refused. -/
def ofScientific? (negative : Bool) (significand : Nat) (exponent : Int) : Option Double :=
  let x : Double := .ofRatio negative significand 1
  if exponent < 0 then some (scaleDown 4 x (-exponent).toNat)
  else if exponent ≤ 308 then
    let y := x.mul (powerOfTen exponent.toNat)
    if y.isFinite then some y else none
  else if significand = 0 then some x else none

end Double

namespace Single

def documentText : Single → Option String := Binary.documentText ⟨-5, 13⟩

end Single
end ShaderNet.Number

/-! Binary floating-point numbers in exact arithmetic. A finite number is a sign and a word: the
significand and exponent fields read as one natural number. Words ascend with the magnitudes they
stand for and start at zero, so stepping to the next number is stepping to the next word, and a
magnitude that rounds past the last word is infinite. -/
namespace ShaderNet.Number

def twoTo (n : Nat) : Nat := Nat.pow 2 n

structure Format where
  fraction : Nat
  exponent : Nat
  deriving DecidableEq, Repr

namespace Format

def double : Format := ⟨52, 11⟩
def single : Format := ⟨23, 8⟩

def infinity (f : Format) : Nat := (twoTo f.exponent - 1) * twoTo f.fraction

def lowest (f : Format) : Int := 2 - (twoTo (f.exponent - 1) : Int) - f.fraction

def significand (f : Format) (word : Nat) : Nat :=
  if word < twoTo f.fraction then word else twoTo f.fraction + word % twoTo f.fraction

def scale (f : Format) (word : Nat) : Int := f.lowest + (word / twoTo f.fraction - 1 : Nat)

end Format

inductive Binary (f : Format) where
  | nan
  | infinite (negative : Bool)
  | finite (negative : Bool) (word : Fin f.infinity)
  deriving DecidableEq, Repr

abbrev Double := Binary .double
abbrev Single := Binary .single

def nearest (n d : Nat) : Nat :=
  let q := n / d
  let r := n % d
  if d < 2 * r ∨ (2 * r = d ∧ q % 2 = 1) then q + 1 else q

def floorLog (n d : Nat) : Int :=
  let l : Int := (n.log2 : Int) - d.log2
  if d * twoTo l.toNat ≤ n * twoTo (-l).toNat then l else l - 1

namespace Binary

variable {f g : Format}

def ofWord (negative : Bool) (word : Nat) : Binary f :=
  if h : word < f.infinity then .finite negative ⟨word, h⟩ else .infinite negative

def zero : Binary f := ofWord false 0

def ofRatio (negative : Bool) (n d : Nat) : Binary f :=
  if n = 0 then ofWord negative 0
  else
    let q := max f.lowest (floorLog n d - f.fraction)
    let m := nearest (n * twoTo (-q).toNat) (d * twoTo q.toNat)
    ofWord negative ((q - f.lowest).toNat * twoTo f.fraction + m)

def ofInt (n : Int) : Binary f := ofRatio (n < 0) n.natAbs 1

def ofScaled (negative : Bool) (n : Nat) (q : Int) : Binary f :=
  ofRatio negative (n * twoTo q.toNat) (twoTo (-q).toNat)

def isFinite : Binary f → Bool
  | .finite _ _ => true
  | _ => false

/-- Numeric equality: both zeros are one number, and nothing equals a `nan`. -/
def same : Binary f → Binary f → Bool
  | .infinite s, .infinite t => s = t
  | .finite s w, .finite t v => w = v && (s = t || w.val = 0)
  | _, _ => false

def counted (negative : Bool) (word : Fin f.infinity) (q : Int) : Int :=
  let m : Int := (f.significand word * twoTo (f.scale word - q).toNat : Nat)
  if negative then -m else m

def add : Binary f → Binary f → Binary f
  | .nan, _ | _, .nan => .nan
  | .infinite s, .infinite t => if s = t then .infinite s else .nan
  | .infinite s, .finite _ _ => .infinite s
  | .finite _ _, .infinite t => .infinite t
  | .finite s w, .finite t v =>
    let q := min (f.scale w) (f.scale v)
    let sum := counted s w q + counted t v q
    if sum = 0 then ofWord (s && t) 0 else ofScaled (sum < 0) sum.natAbs q

def mul : Binary f → Binary f → Binary f
  | .nan, _ | _, .nan => .nan
  | .infinite s, .infinite t => .infinite (s ^^ t)
  | .infinite s, .finite t w | .finite t w, .infinite s =>
    if w.val = 0 then .nan else .infinite (s ^^ t)
  | .finite s w, .finite t v =>
    ofScaled (s ^^ t) (f.significand w * f.significand v) (f.scale w + f.scale v)

def div : Binary f → Binary f → Binary f
  | .nan, _ | _, .nan => .nan
  | .infinite _, .infinite _ => .nan
  | .infinite s, .finite t _ => .infinite (s ^^ t)
  | .finite s _, .infinite t => ofWord (s ^^ t) 0
  | .finite s w, .finite t v =>
    if v.val = 0 then
      if w.val = 0 then .nan else .infinite (s ^^ t)
    else
      let q := f.scale w - f.scale v
      ofRatio (s ^^ t) (f.significand w * twoTo q.toNat) (f.significand v * twoTo (-q).toNat)

def convert : Binary f → Binary g
  | .nan => .nan
  | .infinite s => .infinite s
  | .finite s w => ofScaled s (f.significand w) (f.scale w)

def truncate (low high : Int) : Binary f → Int
  | .nan => 0
  | .infinite s => if s then low else high
  | .finite s w =>
    let q := f.scale w
    let m : Int := (f.significand w * twoTo q.toNat / twoTo (-q).toNat : Nat)
    max low (min high (if s then -m else m))

end Binary
end ShaderNet.Number

import ShaderNet.Json.Basic

/-! Reading documents strictly: one value and nothing after it but blanks, no trailing commas, no
leading zeros, no raw control characters in texts. -/
namespace ShaderNet.Json
open Number (Double)

def dropBlanks : List Char → List Char
  | [] => []
  | c :: rest => if c = ' ' ∨ c = '\n' ∨ c = '\t' ∨ c = '\r' then dropBlanks rest else c :: rest

def digit? (c : Char) : Option Nat :=
  if '0' ≤ c ∧ c ≤ '9' then some (c.toNat - 48) else none

def hexValue? (c : Char) : Option Nat :=
  if '0' ≤ c ∧ c ≤ '9' then some (c.toNat - 48)
  else if 'a' ≤ c ∧ c ≤ 'f' then some (c.toNat - 87)
  else if 'A' ≤ c ∧ c ≤ 'F' then some (c.toNat - 55)
  else none

def hexUnit? : List Char → Option (Nat × List Char)
  | a :: b :: c :: d :: rest => do
    let a ← hexValue? a
    let b ← hexValue? b
    let c ← hexValue? c
    let d ← hexValue? d
    some (((a * 16 + b) * 16 + c) * 16 + d, rest)
  | _ => none

def shortEscape? : Char → Option Nat
  | '"' => some 34
  | '\\' => some 92
  | '/' => some 47
  | 'b' => some 8
  | 'f' => some 12
  | 'n' => some 10
  | 'r' => some 13
  | 't' => some 9
  | _ => none

/-- Codes of a text up to its closing quote. A surrogate half counts as a code here; only an escape
can write one. -/
def codes? : Nat → List Nat → List Char → Option (List Nat × List Char)
  | 0, _, _ => none
  | _ + 1, _, [] => none
  | n + 1, done, c :: rest =>
    if c = '"' then some (done.reverse, rest)
    else if c = '\\' then
      match rest with
      | 'u' :: rest => do
        let (code, rest) ← hexUnit? rest
        codes? n (code :: done) rest
      | e :: rest => do
        let code ← shortEscape? e
        codes? n (code :: done) rest
      | [] => none
    else if c.toNat < 32 then none
    else codes? n (c.toNat :: done) rest

def isHigh (n : Nat) : Bool := 0xD800 ≤ n && n < 0xDC00
def isLow (n : Nat) : Bool := 0xDC00 ≤ n && n < 0xE000

def joinPairs : List Nat → Option (List Char)
  | [] => some []
  | a :: rest =>
    if isHigh a then
      match rest with
      | b :: rest =>
        if isLow b then
          (joinPairs rest).map (Char.ofNat (0x10000 + (a - 0xD800) * 0x400 + (b - 0xDC00)) :: ·)
        else none
      | [] => none
    else if isLow a then none
    else (joinPairs rest).map (Char.ofNat a :: ·)

def text? (cs : List Char) : Option (Option String × List Char) := do
  let (codes, rest) ← codes? (cs.length + 1) [] cs
  some ((joinPairs codes).map String.ofList, rest)

def digits : List Char → List Nat × List Char
  | [] => ([], [])
  | c :: rest =>
    match digit? c with
    | some d => let (ds, tail) := digits rest; (d :: ds, tail)
    | none => ([], c :: rest)

def naturalOf (ds : List Nat) : Nat := ds.foldl (fun n d => n * 10 + d) 0

def largestWord : Nat := 18446744073709551615

/-- Digits before the point enter the significand while it fits a word; the others only raise the
power of ten. -/
def takeWhole : Nat → Int → List Nat → Nat × Int
  | m, e, [] => (m, e)
  | m, e, d :: rest =>
    if m * 10 + d ≤ largestWord then takeWhole (m * 10 + d) e rest
    else (m, e + (rest.length + 1 : Nat))

def takeFraction : Nat → Int → List Nat → Nat × Int
  | m, e, [] => (m, e)
  | m, e, d :: rest =>
    if m * 10 + d ≤ largestWord then takeFraction (m * 10 + d) (e - 1) rest else (m, e)

def fraction? : List Char → Option (Option (List Nat) × List Char)
  | '.' :: rest =>
    match digits rest with
    | ([], _) => none
    | (ds, tail) => some (some ds, tail)
  | cs => some (none, cs)

def exponentSign : List Char → Bool × List Char
  | '+' :: rest => (false, rest)
  | '-' :: rest => (true, rest)
  | cs => (false, cs)

def exponent? (cs : List Char) : Option (Option Int × List Char) :=
  match cs with
  | c :: rest =>
    if c = 'e' ∨ c = 'E' then
      let (negative, rest) := exponentSign rest
      match digits rest with
      | ([], _) => none
      | (ds, tail) =>
        let n : Int := naturalOf ds
        some (some (if negative then -n else n), tail)
    else some (none, cs)
  | [] => some (none, [])

/-- Whole numbers that fit a signed or unsigned word stay whole; a negative zero is a double. -/
def wholeNumber (negative : Bool) (ds : List Nat) : Json :=
  let n := naturalOf ds
  if !negative && n ≤ largestWord then .integer n
  else if negative && 0 < n && n ≤ 9223372036854775808 then .integer (-n)
  else
    let (m, e) := takeWhole 0 0 ds
    match Double.ofScientific? negative m e with
    | some x => .double x
    | none => .unreadable

def scaledNumber (negative : Bool) (ds fs : List Nat) (power : Int) : Json :=
  let (m, e) := takeWhole 0 0 ds
  let (m, e) := takeFraction m e fs
  match Double.ofScientific? negative m (e + power) with
  | some x => .double x
  | none => .unreadable

def number? (negative : Bool) (cs : List Char) : Option (Json × List Char) :=
  match digits cs with
  | ([], _) => none
  | (0 :: _ :: _, _) => none
  | (ds, rest) => do
    let (fs, rest) ← fraction? rest
    let (power, rest) ← exponent? rest
    match fs, power with
    | none, none => some (wholeNumber negative ds, rest)
    | fs, power => some (scaledNumber negative ds (fs.getD []) (power.getD 0), rest)

def contain (room : Nat) (j : Json) : Json := if room = 0 then .unreadable else j

def objectOf (fields : List (Option String × Json)) : Json :=
  match fields.mapM (fun p => p.1.map (fun name => (name, p.2))) with
  | some fields => .object fields
  | none => .unreadable

mutual

def value? : Nat → Nat → List Char → Option (Json × List Char)
  | 0, _, _ => none
  | n + 1, room, cs =>
    match dropBlanks cs with
    | 'n' :: 'u' :: 'l' :: 'l' :: rest => some (.null, rest)
    | 't' :: 'r' :: 'u' :: 'e' :: rest => some (.bool true, rest)
    | 'f' :: 'a' :: 'l' :: 's' :: 'e' :: rest => some (.bool false, rest)
    | '"' :: rest => do
      let (s, rest) ← text? rest
      some ((s.map Json.string).getD .unreadable, rest)
    | '-' :: rest => number? true rest
    | '[' :: rest =>
      match dropBlanks rest with
      | ']' :: rest => some (contain room (.array []), rest)
      | rest => do
        let (items, rest) ← items? n (room - 1) rest
        some (contain room (.array items), rest)
    | '\x7b' :: rest =>
      match dropBlanks rest with
      | '\x7d' :: rest => some (contain room (.object []), rest)
      | rest => do
        let (fields, rest) ← fields? n (room - 1) rest
        some (contain room (objectOf fields), rest)
    | cs => number? false cs

def items? : Nat → Nat → List Char → Option (List Json × List Char)
  | 0, _, _ => none
  | n + 1, room, cs => do
    let (j, rest) ← value? n room cs
    match dropBlanks rest with
    | ',' :: rest => do
      let (items, rest) ← items? n room rest
      some (j :: items, rest)
    | ']' :: rest => some ([j], rest)
    | _ => none

def fields? : Nat → Nat → List Char → Option (List (Option String × Json) × List Char)
  | 0, _, _ => none
  | n + 1, room, cs =>
    match dropBlanks cs with
    | '"' :: rest => do
      let (name, rest) ← text? rest
      match dropBlanks rest with
      | ':' :: rest => do
        let (j, rest) ← value? n room rest
        match dropBlanks rest with
        | ',' :: rest => do
          let (fields, rest) ← fields? n room rest
          some ((name, j) :: fields, rest)
        | '\x7d' :: rest => some ([(name, j)], rest)
        | _ => none
      | _ => none
    | _ => none

end

def nestingLimit : Nat := 127

def read (s : String) : Option Json :=
  let cs := s.toList
  match value? (cs.length + 1) nestingLimit cs with
  | some (j, rest) => if (dropBlanks rest).isEmpty then some j else none
  | none => none

end ShaderNet.Json

import ShaderNet.Text

/-! Just enough of the shading language to find functions and the directives before them. All else
is passed over as opaque statements. Places in a source are counted by what remains after them. -/
namespace ShaderNet.Fragment

inductive GapMode where
  | outside
  | line
  | opening
  | block
  | closing

def closes : List Char → Bool
  | '*' :: '/' :: _ => true
  | _ :: rest => closes rest
  | [] => false

def isNewline (c : Char) : Bool := c = '\n' || c = '\r'
def isGap (c : Char) : Bool := c = ' ' || c = '\t' || isNewline c

def dropGapFrom : GapMode → List Char → List Char
  | _, [] => []
  | .outside, c :: rest =>
    if isGap c then dropGapFrom .outside rest
    else if c = '/' then
      match rest with
      | '/' :: _ => dropGapFrom .line rest
      | '*' :: inner => if closes inner then dropGapFrom .opening rest else c :: rest
      | _ => c :: rest
    else c :: rest
  | .line, c :: rest => if isNewline c then dropGapFrom .outside rest else dropGapFrom .line rest
  | .opening, _ :: rest => dropGapFrom .block rest
  | .block, c :: rest =>
    match c, rest with
    | '*', '/' :: _ => dropGapFrom .closing rest
    | _, _ => dropGapFrom .block rest
  | .closing, _ :: rest => dropGapFrom .outside rest

def dropGap (cs : List Char) : List Char := dropGapFrom .outside cs

def startsWord (c : Char) : Bool := c.isAlpha || c = '_'
def continuesWord (c : Char) : Bool := c.isAlphanum || c = '_'

structure Region where
  start : Nat
  stop : Nat
  deriving DecidableEq, Repr

structure Word where
  text : String
  region : Region
  deriving DecidableEq, Repr

def word? : List Char → Option (Word × List Char)
  | [] => none
  | c :: cs =>
    if startsWord c then
      let rest := cs.dropWhile continuesWord
      some (⟨String.ofList (c :: cs.takeWhile continuesWord), ⟨cs.length + 1, rest.length⟩⟩, rest)
    else none

def expect? (c : Char) : List Char → Option (List Char)
  | d :: rest => if d = c then some rest else none
  | [] => none

def isQualifier (s : String) : Bool := s ∈ ["inout", "in", "out", "const"]

def qualifiers : Nat → List Char → List Word × List Char
  | 0, cs => ([], cs)
  | n + 1, cs =>
    match word? cs with
    | some (w, rest) =>
      if isQualifier w.text then
        let (ws, rest) := qualifiers n (dropGap rest)
        (w :: ws, rest)
      else ([], cs)
    | none => ([], cs)

def precisions : List String := ["highp", "mediump", "lowp"]

/-- Past a precision, if there is one. Any gap after it is passed over before the look ahead, which sees
to it that no word goes on there. -/
def dropPrecision (cs : List Char) : List Char :=
  match precisions.findSome? fun p => Text.after? p.toList cs with
  | some rest => if (dropGap rest).head?.any continuesWord then cs else dropGap rest
  | none => cs

def bracket? : Nat → List Char → Option (List Char)
  | 0, _ => none
  | n + 1, cs =>
    match dropGap cs with
    | [] => none
    | c :: rest => if c = ']' then some rest else bracket? n rest

structure ParameterForm where
  qualifiers : List Word
  type : Word
  name : Word
  suffix : Option Region
  deriving DecidableEq, Repr

def suffix (cs : List Char) : Option Region × List Char :=
  match dropGap cs with
  | '[' :: rest =>
    match bracket? (rest.length + 1) rest with
    | some after => (some ⟨rest.length + 1, after.length⟩, after)
    | none => (none, cs)
  | _ => (none, cs)

def parameter? (cs : List Char) : Option (ParameterForm × List Char) := do
  let (qs, rest) := qualifiers (cs.length + 1) cs
  let (type, rest) ← word? (dropPrecision rest)
  let (name, rest) ← word? (dropGap rest)
  let (array, rest) := suffix rest
  some (⟨qs, type, name, array⟩, rest)

def moreParameters : Nat → List Char → List ParameterForm × List Char
  | 0, cs => ([], cs)
  | n + 1, cs =>
    match expect? ',' (dropGap cs) with
    | none => ([], cs)
    | some rest =>
      match parameter? (dropGap rest) with
      | none => ([], cs)
      | some (p, rest) =>
        let (ps, rest) := moreParameters n rest
        (p :: ps, rest)

def someParameters (cs : List Char) : List ParameterForm × List Char :=
  match parameter? cs with
  | none => ([], cs)
  | some (p, rest) =>
    let (ps, rest) := moreParameters (rest.length + 1) rest
    (p :: ps, rest)

def parameters (cs : List Char) : List ParameterForm × List Char :=
  match Text.after? ['v', 'o', 'i', 'd'] cs with
  | some rest => if (dropGap rest).head? = some ')' then ([], rest) else someParameters cs
  | none => someParameters cs

def body? : Nat → Nat → List Char → Option (List Char)
  | 0, _, _ => none
  | n + 1, depth, cs =>
    match dropGap cs with
    | [] => none
    | '\x7b' :: rest => body? n (depth + 1) rest
    | '\x7d' :: rest =>
      match depth with
      | 0 => some rest
      | depth + 1 => body? n depth rest
    | _ :: rest => body? n depth rest

structure FunctionForm where
  result : Word
  name : Word
  parameters : List ParameterForm
  isDefined : Bool
  region : Region
  deriving DecidableEq, Repr

def functionEnd? (cs : List Char) : Option (Bool × List Char) :=
  match cs with
  | '\x7b' :: rest => (body? (rest.length + 1) 0 rest).map (fun rest => (true, rest))
  | ';' :: rest => some (false, rest)
  | _ => none

def function? (cs : List Char) : Option (FunctionForm × List Char) := do
  let (result, rest) ← word? (dropPrecision cs)
  let (name, rest) ← word? (dropGap rest)
  let rest ← expect? '(' (dropGap rest)
  let (ps, rest) := parameters (dropGap rest)
  let rest ← expect? ')' (dropGap rest)
  let (isDefined, rest) ← functionEnd? (dropGap rest)
  some (⟨result, name, ps, isDefined, ⟨cs.length, rest.length⟩⟩, rest)

def statement? : Nat → List Char → Option (List Char)
  | 0, _ => none
  | n + 1, cs =>
    match dropGap cs with
    | [] | '#' :: _ => none
    | ';' :: rest => some rest
    | '\x7b' :: rest => body? (rest.length + 1) 0 rest
    | _ :: rest => statement? n rest

inductive Item where
  | directive (text : List Char)
  | function (form : FunctionForm)
  | statement
  deriving DecidableEq, Repr

def item? (cs : List Char) : Option (Item × List Char) :=
  match cs with
  | '#' :: rest =>
    some (.directive (rest.takeWhile (fun c => !isNewline c)), rest.dropWhile (fun c => !isNewline c))
  | cs =>
    match function? cs with
    | some (f, rest) => some (.function f, rest)
    | none => (statement? (cs.length + 1) cs).map (fun rest => (.statement, rest))

def itemsFrom? : Nat → List Char → Option (List Item)
  | 0, _ => none
  | n + 1, cs =>
    match dropGap cs with
    | [] => some []
    | c :: cs => do
      let (item, rest) ← item? (c :: cs)
      let items ← itemsFrom? n rest
      some (item :: items)

def items? (cs : List Char) : Option (List Item) := itemsFrom? (cs.length + 1) cs

end ShaderNet.Fragment

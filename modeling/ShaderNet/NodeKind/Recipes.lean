import ShaderNet.Fragment.Exports
import ShaderNet.Identifier
import ShaderNet.NodeKind.Basic
import ShaderNet.Recipe
import ShaderNet.Uniform
import ShaderNet.ValueType.Conversion
import ShaderNet.ValueType.Name
import ShaderNet.ValueType.Zero

/-! Recipes of every kind of node: for the sockets it offers as it is connected, and for what it
compiles to. -/
namespace ShaderNet
open Number (Binary Double)

structure Sockets where
  inputs : List (String × ValueType)
  outputs : List (String × ValueType)
  deriving DecidableEq

structure Surroundings where
  uniforms : Table String Uniform
  exports : Exports

namespace NodeKind
open Recipe

def floatText (x : Double) : String :=
  let text := x.plainText
  if '.' ∈ text.toList then text else text ++ ".0"

def call (name : String) (arguments : List String) : String :=
  name ++ "(" ++ ", ".intercalate arguments ++ ")"

/-! Literals and colors -/

def boolText (b : Bool) : String := if b then "true" else "false"

def numberText (base : Scalar) (x : Double) : String :=
  match base with
  | .int => toString (x.truncate (-9223372036854775808) 9223372036854775807)
  | .uint => toString (x.truncate 0 18446744073709551615) ++ "u"
  | .double => floatText x ++ "lf"
  | _ => floatText x

def literalText (base : Scalar) (node : Node) : Recipe String :=
  if base = .bool then do
    return boolText (← parameter node "value" .boolean Parameter.boolean? false)
  else do
    let x ← number node "value"
    if x.isFinite then return numberText base x else refuse (.literal x base)

def colorText (c : Color) : String := call "vec4" (c.channels.map fun x => floatText x.convert)

def compileColor (node : Node) : Recipe Compiled := do
  let c ← parameter node "color" .color Parameter.color? .black
  return .single "out" (.simple (.vec 4) (colorText c))

/-! Uniforms -/

def uniformOf (s : Surroundings) (node : Node) : Recipe (String × ValueType) := do
  let id ← text node "uniform" ""
  match s.uniforms.get? id with
  | some u => return (id, u.type)
  | none => .fail (.uniformMissing id)

/-! Arithmetic -/

def operand (node : Node) (name : String) : Recipe Expression := do
  match ← input name with
  | some e => return e
  | none => refuse (.openOperand name node.id)

def compileOperator (op : Operator) (node : Node) : Recipe Compiled := do
  let a ← operand node "a"
  let b ← operand node "b"
  return .single "out" (.compound a.type ("(" ++ a.text ++ " " ++ op.symbol ++ " " ++ b.text ++ ")"))

def compileNegate (node : Node) : Recipe Compiled := do
  let a ← operand node "a"
  return .single "out" (.compound a.type ("(-" ++ a.text ++ ")"))

def castTarget (node : Node) : Recipe ValueType := do
  let name ← text node "type" "float"
  match ValueType.ofName? name with
  | none => refuse (.unknownTypeName name)
  | some target =>
    if target.isScalar || target.isVector then return target else refuse (.castTarget target)

/-- Vectors may be cut short or filled from a scalar, never widened. -/
def castFrom (target : ValueType) (e : Expression) : Except Unsupported Expression :=
  match e.type.size?, target.size? with
  | some m, some n =>
    if 1 < m ∧ m < n then .error (.widening e.type target)
    else if e.type = target then .ok e
    else .ok (.compound target (call target.name [e.text]))
  | _, _ => .error (.cast e.type target)

def compileCast (node : Node) : Recipe Compiled := do
  let target ← castTarget node
  match ← input "value" with
  | none => return .single "out" (.simple target (← ofExcept target.zero))
  | some e => return .single "out" (← ofExcept (castFrom target e))

/-! Vectors -/

def componentOf (size : Nat) (node : Node) (name : String) : Recipe (String × Bool) := do
  match ← input name with
  | some e =>
    if e.type.toImplicitly .float then return (e.text, e.trivial)
    else refuse (.vectorComponent name (.vec size) e.type)
  | none => return (floatText (← number node name), true)

-- a kind is registered for sizes up to four only, so the names suffice
def compileCompose (size : Nat) (node : Node) : Recipe Compiled := do
  let parts ← (components.take size).mapM (componentOf size node)
  return .single "out" ⟨.vec size, call (ValueType.vec size).name (parts.map Prod.fst),
    parts.all Prod.snd⟩

def selectFrom (e : Expression) (member : String) : String := e.text ++ "." ++ member

/-- The names of the first components. There are four; a cut beyond them is not refused but breaks off. -/
def slice (size : Nat) : Recipe (List String) :=
  if size ≤ components.length then return components.take size
  else .fail (.outOfRange size components.length)

def splitParts (node : Node) (e : Expression) : Recipe Compiled :=
  match e.type.size?, e.type.component? with
  | some size, some component =>
    let (bound, whole) := Compiled.empty.hoist (Identifier.binding node.id "vector") e
    if e.type.isScalar then return bound.withOutput "x" whole
    else do
      let names ← slice size
      return names.foldl
        (fun c name => c.withOutput name (.simple component (selectFrom whole name))) bound
  | _, _ => refuse (.componentAccess e.type)

def compileSplit (node : Node) : Recipe Compiled := do
  match ← input "vector" with
  | none =>
    return components.foldl (fun c name => c.withOutput name (.simple .float "0.0")) .empty
  | some e => splitParts node e

def memberSets : List (List Char) :=
  [['x', 'y', 'z', 'w'], ['r', 'g', 'b', 'a'], ['s', 't', 'p', 'q']]

def positionsIn (members : List Char) (set : List Char) : Option (List Nat) :=
  members.mapM fun c => set.findIdx? (· = c)

def positions (member : String) : Except Unsupported (List Nat) :=
  let members := member.toList
  if members.isEmpty || 4 < members.length then .error (.selection member)
  else match memberSets.findSome? (positionsIn members) with
    | some l => .ok l
    | none => .error (.selection member)

def selectedType (member : String) (type : ValueType) : Except Unsupported ValueType := do
  let l ← positions member
  if type.isScalar then
    if l = [0] then .ok type else .error (.scalarSelection type member)
  else
    match l.find? (fun i => type.size?.getD 0 ≤ i) with
    | some i => .error (.missingComponent type (i + 1))
    | none => .ok (.shaped (type.base?.getD .float) l.length)

def openSelection (member : String) : Except Unsupported ValueType := do
  return .shaped .float (← positions member).length

def compileSwizzle (node : Node) : Recipe Compiled := do
  let member ← text node "member" "x"
  match ← input "vector" with
  | none =>
    let type ← ofExcept (openSelection member)
    return .single "out" (.simple type (← ofExcept type.zero))
  | some e =>
    let type ← ofExcept (selectedType member e.type)
    if e.type.isScalar then return .single "out" e
    else
      let whole := if e.trivial then e.text else "(" ++ e.text ++ ")"
      return .single "out" ⟨type, whole ++ "." ++ member, e.trivial⟩

/-! Functions -/

def argument (function name : String) (type : ValueType) : Recipe String := do
  match ← input name with
  | some e =>
    if e.type.toStrictly type then return e.text
    else refuse (.argument name function type e.type)
  | none => ofExcept type.zero

def narrowed (s : Signature) : Recipe Narrowing :=
  s.parameters.foldlM (fun n p => do
    match ← inputType p.1 with
    | some type => ofExcept (n.narrow p.2 type)
    | none => return n) (.start s)

def compileBuiltin (s : Signature) : Recipe Compiled := do
  let n := (← narrowed s).collapse
  let arguments ← s.parameters.mapM fun p => do
    argument s.name p.1 (← ofExcept (n.resolve p.2))
  return .single "out" (.compound (← ofExcept (n.resolve s.output)) (call s.name arguments))

def functionOf (s : Surroundings) (node : Node) : Recipe ExportedFunction := do
  let name ← text node "function" ""
  match s.exports.get? name with
  | some f => return f
  | none => .fail (.functionMissing name)

def compileFunction (s : Surroundings) (node : Node) : Recipe Compiled := do
  let f ← functionOf s node
  let arguments ← f.parameters.mapM fun p => argument f.name p.1 p.2
  match f.output with
  | none => return .empty
  | some type => return .single "out" (.compound type (call f.name arguments))

/-! Textures and sinks -/

def compileTexture : Recipe Compiled := do
  let sampler ← match ← input "sampler" with
    | some e => if e.type = .sampler then pure e.text else refuse (.sampling e.type)
    | none => ofExcept ValueType.sampler.zero
  let coordinates ← match ← input "uv" with
    | some e => if e.type.toStrictly (.vec 2) then pure e.text else refuse (.coordinates e.type)
    | none => pure "v_uv"
  return .single "color" (.compound (.vec 4) (call "texture" [sampler, coordinates]))

def compileSink : Recipe Compiled := do
  match ← input "color" with
  | some e => return .single "color" (← ofExcept e.displayed)
  | none => return .single "color" (.simple (.vec 4) "vec4(0.0, 0.0, 0.0, 1.0)")

def compile (kind : NodeKind) (s : Surroundings) (node : Node) : Recipe Compiled :=
  match kind with
  | literal base => do return .single "out" (.simple (.scalar base) (← literalText base node))
  | color => compileColor node
  | ambient value => return .single "out" (.simple value.type value.identifier)
  | uniform => do
    let (id, type) ← uniformOf s node
    return .single "out" (.simple type (Identifier.uniform id))
  | operator op => compileOperator op node
  | negate => compileNegate node
  | cast => compileCast node
  | compose size => compileCompose size node
  | split => compileSplit node
  | swizzle => compileSwizzle node
  | builtin signature => compileBuiltin signature
  | function => compileFunction s node
  | texture => compileTexture
  | sink _ => compileSink

/-! Sockets -/

def resultType : Recipe ValueType := do return (← inputType "a").getD .anyNumeric

def splitSocketsOf (type : ValueType) : Recipe Sockets := do
  let component ← ofExcept type.component
  let names ← slice (type.size?.getD 1)
  return ⟨[("vector", .anyScalarOrVector)], names.map fun c => (c, component)⟩

def splitSockets : Recipe Sockets := do
  match ← inputType "vector" with
  | none => return ⟨[("vector", .anyScalarOrVector)], components.map fun c => (c, .float)⟩
  | some type => splitSocketsOf type

def swizzleSockets (node : Node) : Recipe Sockets := do
  let member ← text node "member" "x"
  let type ← match ← inputType "vector" with
    | some type => ofExcept (selectedType member type)
    | none => ofExcept (openSelection member)
  return ⟨[("vector", .anyScalarOrVector)], [("out", type)]⟩

def builtinSockets (s : Signature) : Recipe Sockets := do
  let n ← narrowed s
  let inputs ← s.parameters.mapM fun p => do return (p.1, ← ofExcept (n.resolve p.2))
  return ⟨inputs, [("out", ← ofExcept (n.resolve s.output))]⟩

def functionSockets (s : Surroundings) (node : Node) : Recipe Sockets := do
  let f ← functionOf s node
  return ⟨f.parameters, f.output.toList.map fun type => ("out", type)⟩

def sockets (kind : NodeKind) (s : Surroundings) (node : Node) : Recipe Sockets :=
  match kind with
  | literal base => return ⟨[], [("out", .scalar base)]⟩
  | color => return ⟨[], [("out", .vec 4)]⟩
  | ambient value => return ⟨[], [("out", value.type)]⟩
  | uniform => do return ⟨[], [("out", (← uniformOf s node).2)]⟩
  | operator _ => do return ⟨[("a", .anyNumeric), ("b", .anyNumeric)], [("out", ← resultType)]⟩
  | negate => do return ⟨[("a", .anyNumeric)], [("out", ← resultType)]⟩
  | cast => do return ⟨[("value", .anyScalarOrVector)], [("out", ← castTarget node)]⟩
  | compose size =>
    return ⟨(components.take size).map fun c => (c, .float), [("out", .vec size)]⟩
  | split => splitSockets
  | swizzle => swizzleSockets node
  | builtin signature => builtinSockets signature
  | function => functionSockets s node
  | texture => return ⟨[("sampler", .sampler), ("uv", .vec 2)], [("color", .vec 4)]⟩
  | sink _ => return ⟨[("color", .anyScalarOrVector)], [("color", .vec 4)]⟩

end NodeKind
end ShaderNet

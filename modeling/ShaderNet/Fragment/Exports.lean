import ShaderNet.Failure
import ShaderNet.Fragment.Grammar
import ShaderNet.Table

/-! Functions that source fragments export. A function is exported when the directive right before
it carries an `editor:` list with the entry `export`. -/
namespace ShaderNet

structure ExportedFunction where
  name : String
  parameters : List (String × ValueType)
  output : Option ValueType
  pragmas : List String
  path : String
  deriving DecidableEq, Repr

namespace Fragment

/-- The place after some text. A line ends with `\n` or `\r\n`; a lone `\r` is one column. -/
def placeFrom : Place → List Char → Place
  | p, [] => p
  | p, c :: rest =>
    if c = '\n' then placeFrom ⟨p.line + 1, 1⟩ rest
    else if c = '\r' && rest.head? = some '\n' then placeFrom p rest
    else placeFrom ⟨p.line, p.column + 1⟩ rest

def placeAt (source : List Char) (remaining : Nat) : Place :=
  placeFrom ⟨1, 1⟩ (source.take (source.length - remaining))

def pragmas? (directive : List Char) : Option (List String) :=
  (Text.afterFirst? "editor:".toList directive).map fun list =>
    (((Text.splitOn ',' list).map Text.trim).filter (fun p => !p.isEmpty)).map String.ofList

structure Origin where
  path : String
  source : List Char

def Origin.faulty (o : Origin) (region : Region) (fault : ExportFault) : FragmentError :=
  .faulty o.path (placeAt o.source region.start) (placeAt o.source region.stop) fault

def supportedType (o : Origin) (w : Word) : Except FragmentError ValueType :=
  match w.text with
  | "float" => .ok .float
  | "vec2" => .ok (.vec 2)
  | "vec3" => .ok (.vec 3)
  | "vec4" => .ok (.vec 4)
  | other => .error (o.faulty w.region (.valueType other))

def checkQualifiers (o : Origin) : List Word → Except FragmentError Unit
  | [] => .ok ()
  | w :: ws =>
    if w.text = "in" ∨ w.text = "const" then checkQualifiers o ws
    else .error (o.faulty w.region (.qualifier w.text))

def exportParameter (o : Origin) (p : ParameterForm) : Except FragmentError (String × ValueType) := do
  checkQualifiers o p.qualifiers
  let type ← supportedType o p.type
  match p.suffix with
  | some region => .error (o.faulty region (.valueType (type.name ++ "[]")))
  | none => .ok (p.name.text, type)

def exportOutput (o : Origin) (w : Word) : Except FragmentError (Option ValueType) :=
  if w.text = "void" then .ok none else (supportedType o w).map some

def exportFunction (o : Origin) (pragmas : List String) (f : FunctionForm) :
    Except FragmentError ExportedFunction := do
  let output ← exportOutput o f.result
  let parameters ← f.parameters.mapM (exportParameter o)
  .ok ⟨f.name.text, parameters, output, pragmas, o.path⟩

def exportItems (o : Origin) : Option (List String) → List ExportedFunction → List Item →
    Except FragmentError (List ExportedFunction)
  | _, done, [] => .ok done
  | _, done, .directive text :: rest => exportItems o (pragmas? text) done rest
  | _, done, .statement :: rest => exportItems o none done rest
  | pending, done, .function f :: rest =>
    match pending with
    | some pragmas =>
      if "export" ∈ pragmas ∧ f.isDefined then do
        let function ← exportFunction o pragmas f
        if done.any (fun other => other.name = function.name) then
          .error (o.faulty f.region (.repeated function.name))
        else exportItems o none (done ++ [function]) rest
      else exportItems o none done rest
    | none => exportItems o none done rest

def exports (path source : String) : Except FragmentError (List ExportedFunction) :=
  match items? source.toList with
  | none => .error (.malformed path)
  | some items => exportItems ⟨path, source.toList⟩ none [] items

end Fragment

structure Include where
  path : String
  source : Option String
  deriving DecidableEq, Repr

abbrev Exports := Table String ExportedFunction

namespace Exports

def ofIncludes : List Include → Exports → List FragmentError → Exports × List FragmentError
  | [], exports, errors => (exports, errors)
  | i :: rest, exports, errors =>
    match i.source with
    | none => ofIncludes rest exports errors
    | some source =>
      match Fragment.exports i.path source with
      | .ok functions =>
        ofIncludes rest (exports.overlay (functions.map fun f => (f.name, f))) errors
      | .error e => ofIncludes rest exports (errors ++ [e])

def collect (includes : List Include) : Exports × List FragmentError := ofIncludes includes ∅ []

end Exports
end ShaderNet

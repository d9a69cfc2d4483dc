import ShaderNet.PathText
import ShaderNet.Session

/-! The command line: one document and one node, to a shader or to a description of the node. -/
namespace ShaderNet

structure Invocation where
  graph : String
  node : String
  root : Option String
  version : Option String
  info : Bool
  deriving DecidableEq, Repr

inductive Command where
  | run (invocation : Invocation)
  | help
  | misuse
  deriving DecidableEq, Repr

structure Outcome where
  code : Nat
  output : String
  error : Option String
  deriving DecidableEq, Repr

namespace Command

structure Given where
  positions : List String
  root : Option String
  version : Option String
  info : Bool

def startsOption (argument : String) : Bool :=
  match argument.toList with
  | '-' :: _ :: _ => true
  | _ => false

def setRoot (g : Given) (value : String) : Option Given :=
  if g.root.isSome ∨ value.isEmpty then none else some { g with root := some value }

def setVersion (g : Given) (value : String) : Option Given :=
  if g.version.isSome then none else some { g with version := some value }

def addPosition (g : Given) (value : String) : Option Given :=
  match g.positions with
  | [] => if value.isEmpty then none else some { g with positions := [value] }
  | [graph] => some { g with positions := [graph, value] }
  | _ => none

def finish (g : Given) : Command :=
  match g.positions with
  | [graph, node] => .run ⟨graph, node, g.root, g.version, g.info⟩
  | _ => .misuse

def after? (lead argument : String) : Option String :=
  (Text.after? lead.toList argument.toList).map String.ofList

def readPositions : Given → List String → Command
  | g, [] => finish g
  | g, argument :: rest =>
    match addPosition g argument with
    | some g => readPositions g rest
    | none => .misuse

def readArguments : Given → List String → Command
  | g, [] => finish g
  | g, argument :: rest =>
    if argument = "--" then readPositions g rest
    else if argument = "--help" ∨ (after? "-h" argument).isSome then .help
    else if argument = "--info" then
      if g.info then .misuse else readArguments { g with info := true } rest
    else match after? "--root=" argument, after? "--version-directive=" argument with
      | some value, _ =>
        match setRoot g value with
        | some g => readArguments g rest
        | none => .misuse
      | none, some value =>
        match setVersion g value with
        | some g => readArguments g rest
        | none => .misuse
      | none, none =>
        if argument = "--root" ∨ argument = "--version-directive" then
          match rest with
          | [] => .misuse
          | value :: rest =>
            if startsOption value then .misuse
            else match (if argument = "--root" then setRoot g value else setVersion g value) with
              | some g => readArguments g rest
              | none => .misuse
        else if startsOption argument then .misuse
        else match addPosition g argument with
          | some g => readArguments g rest
          | none => .misuse

def ofArguments (arguments : List String) : Command := readArguments ⟨[], none, none, false⟩ arguments

end Command

namespace Invocation

def directory (i : Invocation) : String := i.root.getD (PathText.parent i.graph)

def wanted (i : Invocation) (graph : String) : List String :=
  match Document.read graph with
  | some d => d.includes.map (PathText.join i.directory)
  | none => []

def failed (message : String) : Outcome := ⟨1, "", some ("Error: " ++ message)⟩

def encodeSockets (sockets : List (String × ValueType)) : Json :=
  .ofList (fun p => .object [("name", .string p.1), ("type", ValueType.encode p.2)]) sockets

end Invocation

def Description.encode (d : Description) : Option Json := do
  return .object ([("identifier", .string d.id), ("nodeType", .string d.type), ("label", .string d.label),
    ("description", .string d.description), ("inputs", Invocation.encodeSockets d.inputs),
    ("outputs", Invocation.encodeSockets d.outputs),
    ("parameters", ← Json.tryTable Parameter.encode d.parameters)] ++
    Json.given "error" (d.error.map .string))

namespace Invocation

def present (i : Invocation) (w : Workspace) : Outcome :=
  if i.info then
    match (w.describe [i.node]).1 with
    | .ok nodes =>
      match Json.tryList Description.encode nodes with
      | some j => ⟨0, j.pretty ++ "\n", none⟩
      | none => failed "path contains invalid UTF-8 characters"
    | .error e => failed e.message
  else
    match (w.shader i.node).1 with
    | .ok text => ⟨0, text, none⟩
    | .error e => failed ("Could not compile " ++ quote i.node ++ ": " ++ e.message)

def run (i : Invocation) (read : String → Option String) : Outcome :=
  match read i.graph with
  | none => failed ("Could not read " ++ quote i.graph)
  | some text =>
    match Document.read text with
    | none => failed (quote i.graph ++ " is not a valid graph")
    | some d =>
      let options := match i.version with
        | some version => { Options.standard with version := version }
        | none => .standard
      let sources : Sources := fun path => read (PathText.join i.directory path)
      i.present ({ Workspace.empty with sources := sources, options := options }.load d).1

end Invocation

def Command.execute (arguments : List String) (read : String → Option String) : Outcome :=
  match Command.ofArguments arguments with
  | .run i => i.run read
  | .help => ⟨0, "", none⟩
  | .misuse => ⟨2, "", none⟩

end ShaderNet

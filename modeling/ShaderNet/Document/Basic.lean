import ShaderNet.Document.Element
import ShaderNet.Json.Printer
import ShaderNet.Json.Reader

/-! Documents: all that can be edited, as it is saved and loaded. -/
namespace ShaderNet
open Json (record required defaulted)

structure Document where
  version : Nat
  includes : List String
  nodes : List Node
  connections : List Connection
  uniforms : Table String Uniform
  deriving DecidableEq

namespace Document

def currentVersion : Nat := 1

def empty : Document := ⟨currentVersion, [], [], [], ∅⟩

instance : Inhabited Document := ⟨empty⟩

def encode (d : Document) : Option Json := do
  return .object [("version", .natural d.version), ("includes", .strings d.includes),
    ("nodes", ← Json.tryList Node.encode d.nodes),
    ("connections", .ofList Connection.encode d.connections),
    ("uniforms", ← Json.tryTable Uniform.encode d.uniforms)]

def decode (j : Json) : Option Document := do
  match ← record ["version", "includes", "nodes", "connections", "uniforms"] j with
  | [version, includes, nodes, connections, uniforms] =>
    some ⟨← required (Json.natural? 4294967296) version,
      ← defaulted [] (Json.listOf Json.string?) includes,
      ← defaulted [] (Json.listOf Node.decode) nodes,
      ← defaulted [] (Json.listOf Connection.decode) connections,
      ← defaulted ∅ (Json.tableOf Uniform.decode) uniforms⟩
  | _ => none

def read (text : String) : Option Document := (Json.read text).bind decode

def write (d : Document) : Option String := d.encode.map Json.pretty

end Document
end ShaderNet

import ShaderNet.Workspace.Compile
import ShaderNet.Workspace.Edit

/-! Sessions: a workspace driven by requests, one at a time, with a clipboard. -/
namespace ShaderNet
open Number (Double)

inductive Request where
  | addNode (type : String) (position : Point)
  | insertNode (node : Node)
  | insertNodes (nodes : List Node)
  | removeNode (id : String)
  | removeNodes (ids : List String)
  | addConnection (source target : Socket)
  | addConnections (connections : List Connection)
  | removeConnection (id : String)
  | removeConnections (ids : List String)
  | setParameter (id name : String) (value : Parameter)
  | moveNode (id : String) (dx dy : Double)
  | addInclude (path : String)
  | removeInclude (path : String)
  | setUniform (uniform : Uniform)
  | setUniforms (uniforms : List Uniform)
  | removeUniform (id : String)
  | removeUniforms (ids : List String)
  | load (document : Document)
  | paste (document : Document) (dx dy : Double)
  | pasteClipboard (dx dy : Double)
  | copy (ids : List String)
  | compile (id : String)
  | shader (id : String)
  | canConnect (source target : Socket)
  | describe (ids : List String)
  | useOptions (options : Options)
  | useSources (sources : Sources)
  | useRegistry (start : Registry) (types : List (String × String))

inductive Reply where
  | changes (changes : Changes)
  | document (document : Document)
  | compiled (result : Compiled) (again : Bool)
  | shader (text : String)
  | verdict (good : Bool)
  | descriptions (nodes : List Description)
  | accepted

/-- `delivered` holds the nodes whose last delivered result is still kept. -/
structure Session where
  workspace : Workspace
  clipboard : Document
  delivered : KeySet String

namespace Session

def start (w : Workspace) : Session := ⟨w, .empty, ∅⟩

def afterEdit (s : Session) : Except Failure Changes × Workspace → Except Failure Reply × Session
  | (answer, w) => (answer.map .changes, { s with workspace := w })

def afterChange (s : Session) : Workspace × Changes → Except Failure Reply × Session
  | (w, changes) => (.ok (.changes changes), { s with workspace := w })

def answer (s : Session) (request : Request) : Except Failure Reply × Session :=
  let w := s.workspace
  match request with
  | .addNode type position => s.afterEdit (w.addNode type position)
  | .insertNode node => s.afterEdit (w.insertNode node)
  | .insertNodes nodes => s.afterEdit (w.insertNodes nodes)
  | .removeNode id => s.afterEdit (w.removeNode id)
  | .removeNodes ids => s.afterEdit (w.removeNodes ids)
  | .addConnection source target => s.afterEdit (w.addConnection source target)
  | .addConnections cs => s.afterChange (w.addConnections cs)
  | .removeConnection id => s.afterChange (w.removeConnection id)
  | .removeConnections ids => s.afterChange (w.removeConnections ids)
  | .setParameter id name value => s.afterEdit (w.setParameter id name value)
  | .moveNode id dx dy => s.afterEdit (w.moveNode id dx dy)
  | .addInclude path => s.afterEdit (w.addInclude path)
  | .removeInclude path => s.afterChange (w.removeInclude path)
  | .setUniform u => s.afterChange (w.setUniform u)
  | .setUniforms us => s.afterChange (w.setUniforms us)
  | .removeUniform id => s.afterChange (w.removeUniform id)
  | .removeUniforms ids => s.afterChange (w.removeUniforms ids)
  | .load d => s.afterChange (w.load d)
  | .paste d dx dy => s.afterChange (w.paste d dx dy)
  | .pasteClipboard dx dy => s.afterChange (w.paste s.clipboard dx dy)
  | .copy ids =>
    match w.copy ids with
    | .ok d => (.ok (.document d), { s with clipboard := d })
    | .error e => (.error e, s)
  | .compile id =>
    match w.compile id with
    | (.ok result, w) =>
      (.ok (.compiled result (s.delivered.contains id)),
        { s with workspace := w, delivered := s.delivered.add id })
    | (.error e, w) => (.error e, { s with workspace := w })
  | .shader id =>
    let (answer, w) := w.shader id
    (answer.map .shader, { s with workspace := w })
  | .canConnect source target =>
    let (answer, w) := w.canConnect source target
    (answer.map .verdict, { s with workspace := w })
  | .describe ids =>
    let (answer, w) := w.describe ids
    (answer.map .descriptions, { s with workspace := w })
  | .useOptions options => (.ok .accepted, { s with workspace := { w with options := options } })
  | .useSources sources => (.ok .accepted, { s with workspace := { w with sources := sources } })
  | .useRegistry start types =>
    match start.withTypes types with
    | .ok registry => (.ok .accepted, { s with workspace := w.withRegistry registry })
    | .error e => (.error e, s)

def forgetDropped (s : Session) : Session :=
  { s with delivered :=
      s.delivered.filter fun p => s.workspace.cache.results.contains p.1 }

def handle (s : Session) (request : Request) : Except Failure Reply × Session :=
  let (reply, s) := s.answer request
  (reply, s.forgetDropped)

def run (s : Session) : List Request → Session
  | [] => s
  | request :: rest => (s.handle request).2.run rest

def isNews : Except Failure Reply → Bool
  | .ok (.changes changes) => !changes.isEmpty
  | _ => false

end Session
end ShaderNet

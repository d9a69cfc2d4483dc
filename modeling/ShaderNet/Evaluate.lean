import ShaderNet.Net.Basic
import ShaderNet.NodeKind.Recipes

/-! Compiling nodes, each at most once: results are kept until they are dropped. -/
namespace ShaderNet

structure Scene where
  net : Net
  registry : Registry
  exports : Exports

def Scene.surroundings (s : Scene) : Surroundings := ⟨s.net.uniforms, s.exports⟩

/-- Results by node; the nodes compiled since they were last looked at, in order; and those being
compiled, each of which waits for the next. -/
structure Cache where
  results : Table String Compiled
  recent : List String
  stack : List String

namespace Cache

def empty : Cache := ⟨∅, [], []⟩

instance : Inhabited Cache := ⟨empty⟩

def store (c : Cache) (id : String) (result : Compiled) : Cache :=
  { c with results := c.results.insert id result, recent := c.recent ++ [id] }

def enter (c : Cache) (id : String) : Cache := { c with stack := c.stack ++ [id] }

def leave (c : Cache) : Cache := { c with stack := c.stack.dropLast }

def drop (c : Cache) (ids : KeySet String) : Cache :=
  { c with results := c.results.filter fun p => !ids.contains p.1 }

def clear (c : Cache) : Cache := { c with results := ∅ }

end Cache

namespace Scene

variable {σ : Type}

/-- The expression that feeds an input, given a way to compile its source. A detached input counts
as open. -/
def answer (scene : Scene) (compile : String → σ → Except Failure Compiled × σ) (node : Node)
    (detached : Option String) (name : String) (s : σ) : Except Failure (Option Expression) × σ :=
  if detached = some name then (.ok none, s)
  else match scene.net.feeder? ⟨node.id, name⟩ with
    | none => (.ok none, s)
    | some c =>
      match compile c.source.node s with
      | (.error e, s) => (.error e, s)
      | (.ok result, s) =>
        match result.outputs.get? c.source.name with
        | some e => (.ok (some e), s)
        | none => (.error (.socketMissing c.source.node c.source.name), s)

def cycle (path : List String) (id : String) : List String := path.dropWhile (· ≠ id) ++ [id]

/-- Compile a node. No node waits for itself, so that a budget of one level for each node is never
used up. -/
def compileWithin (scene : Scene) (budget : Nat) (id : String) (cache : Cache) :
    Except Failure Compiled × Cache :=
  match scene.net.node id with
  | .error e => (.error e, cache)
  | .ok node =>
    match cache.results.get? id with
    | some result => (.ok result, cache)
    | none =>
      if id ∈ cache.stack then (.error (.cyclic (cycle cache.stack id)), cache)
      else match scene.registry.kind node.type with
        | .error e => (.error e, cache)
        | .ok kind =>
          match budget with
          | 0 => (.error (.cyclic (cache.stack ++ [id])), cache)
          | budget + 1 =>
            let inputs := scene.answer (scene.compileWithin budget) node none
            match (kind.compile scene.surroundings node).run inputs (cache.enter id) with
            | (.ok result, cache) => (.ok result, cache.leave.store id result)
            | (.error e, cache) => (.error e, cache.leave)

def compile (scene : Scene) (id : String) (cache : Cache) : Except Failure Compiled × Cache :=
  scene.compileWithin scene.net.nodes.size id cache

def sockets (scene : Scene) (kind : NodeKind) (node : Node) (detached : Option String)
    (cache : Cache) : Except Failure Sockets × Cache :=
  (kind.sockets scene.surroundings node).run (scene.answer scene.compile node detached) cache

def typeOf (sockets : List (String × ValueType)) (s : Socket) : Except Failure ValueType :=
  match sockets.find? (fun p => p.1 = s.name) with
  | some p => .ok p.2
  | none => .error (.socketMissing s.node s.name)

def inputType (scene : Scene) (s : Socket) (cache : Cache) : Except Failure ValueType × Cache :=
  match scene.net.node s.node with
  | .error e => (.error e, cache)
  | .ok node =>
    match scene.registry.kind node.type with
    | .error e => (.error e, cache)
    | .ok kind =>
      match scene.sockets kind node (some s.name) cache with
      | (.error e, cache) => (.error e, cache)
      | (.ok sockets, cache) => (typeOf sockets.inputs s, cache)

/-- The type of an output. A node that does not compile has the type it declares. -/
def outputType (scene : Scene) (s : Socket) (cache : Cache) : Except Failure ValueType × Cache :=
  match scene.net.node s.node with
  | .error e => (.error e, cache)
  | .ok node =>
    match scene.compile s.node cache with
    | (.ok result, cache) =>
      (typeOf (result.outputs.entries.map fun p => (p.1, p.2.type)) s, cache)
    | (.error _, cache) =>
      match scene.registry.kind node.type with
      | .error e => (.error e, cache)
      | .ok kind =>
        match scene.sockets kind node none cache with
        | (.error e, cache) => (.error e, cache)
        | (.ok sockets, cache) => (typeOf sockets.outputs s, cache)

end Scene
end ShaderNet

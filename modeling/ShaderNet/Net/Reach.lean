import ShaderNet.Net.Basic

/-! What depends on a node and what it depends on. -/
namespace ShaderNet.Net

def successors (n : Net) (id : String) : List String := (n.outgoing id).map (·.target.node)

def grow (n : Net) (s : KeySet String) : KeySet String := s.addAll (s.keys.flatMap n.successors)

def growWithin (n : Net) : Nat → KeySet String → KeySet String
  | 0, s => s
  | budget + 1, s =>
    let next := n.grow s
    if next.size = s.size then s else growWithin n budget next

/-- Some nodes and all that is computed from them. Every step but the last adds the end of some
connection. -/
def downstreamClosure (n : Net) (seeds : List String) : KeySet String :=
  n.growWithin n.connections.size (KeySet.ofList seeds)

structure Walk where
  entered : KeySet String
  left : List String

def visit (n : Net) : Nat → String → Walk → Walk
  | 0, _, w => w
  | depth + 1, id, w =>
    if w.entered.contains id then w
    else
      let inner := (n.incoming id).foldl (fun w c => visit n depth c.source.node w)
        ⟨w.entered.add id, w.left⟩
      ⟨inner.entered, inner.left ++ [id]⟩

/-- A node and all it depends on, dependencies first. No path without repetition is longer than
there are connections. -/
def upstreamOrder (n : Net) (id : String) : List String :=
  (n.visit (n.connections.size + 1) id ⟨∅, []⟩).left

def numbered (base : String) (i : Int) : String := base ++ "_" ++ toString i

/-- The number that is tried at some turn. They are counted in 32 bits, so that the negative ones follow the
largest and zero is the last; after it there is none that was not tried, and larger ones stand for a search
that never ends. -/
def candidate (turn : Nat) : Int := if turn ≤ 4294967296 then Int.bmod turn 4294967296 else turn

def uniqueFrom (n : Net) (base : String) : Nat → Nat → String
  | 0, turn => numbered base (candidate turn)
  | budget + 1, turn =>
    let id := numbered base (candidate turn)
    if n.contains id then uniqueFrom n base budget (turn + 1) else id

def uniqueId (n : Net) (base : String) : String := n.uniqueFrom base n.nodes.size 1

end ShaderNet.Net

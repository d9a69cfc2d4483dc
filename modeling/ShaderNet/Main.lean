import ShaderNet.CommandLine

/-! The program: reads the files that a command names and writes its outcome. -/
namespace ShaderNet

def usage : String := "Usage: shadernet [OPTIONS] <GRAPH> <NODE>

Compile a node of a shader graph into a fragment shader

  <GRAPH>                        Graph document, as JSON
  <NODE>                         Node to compile
  --root <ROOT>                  Directory includes are resolved from, defaults to the graph's directory
  --version-directive <VERSION>  Argument of the `#version` directive [default: 300 es]
  --info                         Print the node's sockets and state as JSON instead of a shader
  -h, --help                     Print help
"

def readText (path : String) : IO (Option String) := do
  try
    return some (← IO.FS.readFile path)
  catch _ =>
    return none

def readWanted (i : Invocation) : IO (Table String String) := do
  let mut texts : Table String String := ∅
  if let some graph ← readText i.graph then
    texts := texts.insert i.graph graph
    for path in i.wanted graph do
      if let some text ← readText path then
        texts := texts.insert path text
  return texts

def report (outcome : Outcome) : IO UInt32 := do
  IO.print outcome.output
  if let some message := outcome.error then
    IO.eprintln message
  return outcome.code.toUInt32

end ShaderNet

open ShaderNet in
def main (arguments : List String) : IO UInt32 := do
  match Command.ofArguments arguments with
  | .run i => report (i.run (← readWanted i).get?)
  | .help =>
    IO.print usage
    return 0
  | .misuse =>
    IO.eprint usage
    return 2

import ShaderNet.PathText
import ShaderNet.Table

/-! Files below a directory, found by walking along a path. -/
namespace ShaderNet

structure FileTree where
  files : List (List String × String)

namespace FileTree

def ofTable (t : Table String String) : FileTree :=
  ⟨t.entries.map fun p => ((PathText.segments p.1).filter (fun s => s ≠ "" && s ≠ "."), p.2)⟩

def text? (tree : FileTree) (place : List String) : Option String :=
  (tree.files.find? fun p => p.1 = place).map Prod.snd

def isDirectory (tree : FileTree) (place : List String) : Bool :=
  place.isEmpty || tree.files.any fun p => place.isPrefixOf p.1 && place.length < p.1.length

/-- Follow segments from a directory, given by the names on the way to it, last first. Only
directories can be passed through, and nothing above the top is found. -/
def walk (tree : FileTree) : List String → List String → Option String
  | _, [] => none
  | here, segment :: rest =>
    if segment = "" ∨ segment = "." then walk tree here rest
    else if segment = ".." then
      match here with
      | [] => none
      | _ :: up => walk tree up rest
    else
      let next := segment :: here
      if rest.isEmpty then tree.text? next.reverse
      else if tree.isDirectory next.reverse then walk tree next rest
      else none

def read (tree : FileTree) (path : String) : Option String :=
  if PathText.isRooted path then none else tree.walk [] (PathText.segments path)

end FileTree
end ShaderNet

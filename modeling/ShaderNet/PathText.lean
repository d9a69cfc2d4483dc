import ShaderNet.Text

/-! Paths: segments between slashes. Where files are looked for a path is a text; the path that a parameter
holds is made of bytes, and these need not be the bytes of a text. -/
namespace ShaderNet

namespace PathText

def segments (path : String) : List String := (Text.splitOn '/' path.toList).map String.ofList

def isRooted (path : String) : Bool := path.toList.head? = some '/'

/-- Segments that name a step. Empty ones never do, and a dot only at the very start. -/
def stepsOf {α : Type} [DecidableEq α] (slash dot : α) (path : List α) : List (List α) :=
  match Text.splitOn slash path with
  | [] => []
  | first :: rest =>
    (if first.isEmpty then [] else [first]) ++ rest.filter (fun s => s ≠ [] && s ≠ [dot])

def steps (path : String) : List String := (stepsOf '/' '.' path.toList).map String.ofList

def join (directory path : String) : String :=
  if isRooted path ∨ directory.isEmpty then path
  else if directory.toList.getLast? = some '/' then directory ++ path
  else directory ++ "/" ++ path

def parent (path : String) : String :=
  (if isRooted path then "/" else "") ++ "/".intercalate (steps path).dropLast

end PathText

structure Path where
  bytes : List UInt8
  deriving DecidableEq, Repr

namespace Path

def ofText (s : String) : Path := ⟨s.toUTF8.data.toList⟩

def text? (p : Path) : Option String := String.fromUTF8? ⟨p.bytes.toArray⟩

def slash : UInt8 := 47
def dot : UInt8 := 46

def isRooted (p : Path) : Bool := p.bytes.head? = some slash

def steps (p : Path) : List (List UInt8) := PathText.stepsOf slash dot p.bytes

def same (p q : Path) : Bool := p.isRooted = q.isRooted && p.steps = q.steps

end Path
end ShaderNet

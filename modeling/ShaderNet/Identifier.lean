/-! Names as identifiers of shader source. The encoding keeps different names apart, and its results
neither start nor end with an underscore nor hold two in a row. -/
namespace ShaderNet.Identifier

def isInner (before : Option Char) (after : List Char) : Bool :=
  match before, after with
  | some b, a :: _ => b ≠ '_' && a ≠ '_'
  | _, _ => false

def encodeChar (inner : Bool) (c : Char) : List Char :=
  if c = 'X' then ['X', 'X']
  else if c = '_' && inner then ['_']
  else if c.isAlphanum then [c]
  else 'X' :: Nat.toDigits 16 c.toNat ++ ['X']

def encodeFrom (before : Option Char) : List Char → List Char
  | [] => []
  | c :: rest => encodeChar (isInner before rest) c ++ encodeFrom (some c) rest

/-- Letters and digits stay, `X` is doubled, any other character is its code between two `X`. -/
def encode (name : String) : String := String.ofList (encodeFrom none name.toList)

def uniform (id : String) : String := "u_" ++ encode id

/-- The name of what a node binds for a socket. The length keeps the node apart from the socket when
either holds an underscore. -/
def binding (node socket : String) : String :=
  let id := encode node
  "n" ++ toString id.length ++ "_" ++ id ++ "_" ++ encode socket

end ShaderNet.Identifier

import Mips.Text.Split

/-! # Places

A path is a text. It is followed part by part, from the root if it starts with a slash and from the
working directory otherwise, and leads to a place in the tree of directories. A single dot stays
where it is, and two dots go to the directory above; above the root is the root itself.

* `pathParts`: the parts of a path between its slashes.
* `Place.follow`: the place one part further.
* `Place.ofPath`: the place that a path leads to if every part before its last is a directory. -/

namespace Mips
set_option autoImplicit false

/-! ## Paths -/

def isSlash (c : Char) : Bool :=
  c == '/'

/-- The parts of a path between its slashes. -/
def pathParts (path : String) : List String :=
  (Text.runs isSlash path.toList).map String.ofList

/-- A slash at the end asks for a directory. -/
def endsInSlash (path : String) : Bool :=
  path.toList.getLast? == some '/'

/-- The most bytes that a path can have. -/
def pathLimit : Nat := 4095

/-- The most bytes that a name in a directory can have. -/
def nameLimit : Nat := 255

/-! ## Places -/

/-- A directory that is known without looking. -/
inductive Anchor where
  | root
  /-- So many levels above the working directory. -/
  | working (up : Nat)
deriving DecidableEq, Repr

/-- The names that lead down from an anchor. -/
structure Place where
  anchor : Anchor
  names : List String
deriving DecidableEq, Repr

def Anchor.above : Anchor → Anchor
  | .root => .root
  | .working up => .working (up + 1)

namespace Place

def workingDirectory : Place :=
  ⟨.working 0, []⟩

def parent (place : Place) : Place :=
  if place.names.isEmpty then ⟨place.anchor.above, []⟩
  else { place with names := place.names.dropLast }

def follow (place : Place) (part : String) : Place :=
  if part == "." then place
  else if part == ".." then place.parent
  else { place with names := place.names ++ [part] }

/-- Where a path starts. -/
def start (path : String) : Place :=
  if path.toList.head? == some '/' then ⟨.root, []⟩ else workingDirectory

def ofPath (path : String) : Place :=
  (pathParts path).foldl follow (start path)

/-- Whether a place lies in another one, at any depth. -/
def isBelow (place above : Place) : Bool :=
  place.anchor == above.anchor && above.names.isPrefixOf place.names &&
    above.names.length < place.names.length

/-- The names from the anchor down, between slashes. -/
def relativePath (place : Place) : String :=
  "/".intercalate place.names

def hasLongName (place : Place) : Bool :=
  place.names.any fun name => nameLimit < name.utf8ByteSize

end Place

end Mips

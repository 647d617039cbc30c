import SymbolRanges.Text.Split

/-!
# Paths of symbols

A rename table writes a symbol as a path of segments between slashes. The last segment is its
name, and the segments before it, joined with dots, are its owner.
-/

set_option autoImplicit false

namespace SymbolRanges.Rename

/-- What stands between two segments of a path. -/
def pathSeparator : Char := '/'

/-- A symbol by its owner and name; the owner is empty when the path has one segment only. -/
structure Member where
  owner : String
  name : String
  deriving DecidableEq

/-- The segments of a path, empty ones included. -/
def segments (path : String) : List (List Char) :=
  Text.pieces (· == pathSeparator) path.toList

/-- The name that a path ends in. -/
def pathName (path : String) : String := String.ofList ((segments path).getLastD [])

/-- The owner that a path names, with dots between its segments. -/
def pathOwner (path : String) : String :=
  String.ofList (['.'].intercalate (segments path).dropLast)

/-- The symbol that a path names. -/
def Member.ofPath (path : String) : Member := ⟨pathOwner path, pathName path⟩

/-- The name of a class as the records of a range map have it: bare in the default package. -/
def Member.className (m : Member) : String :=
  if m.owner = "" then m.name else m.owner ++ "." ++ m.name

end SymbolRanges.Rename

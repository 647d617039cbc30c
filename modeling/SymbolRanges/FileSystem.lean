import SymbolRanges.Text.Split

/-!
# Files by path

A file system as data: which paths are directories and which are files with what bytes. Reading a
path follows its components one by one, and each step needs a directory to stand in.
-/

set_option autoImplicit false

namespace SymbolRanges

/-- Why a path could not be read. -/
inductive FileError where
  | notFound
  | notADirectory
  | isADirectory
  | nameTooLong
  | containsNul
  deriving DecidableEq, Repr

/-- The text of a failure, with the number of the system's error. -/
def FileError.message : FileError → String
  | notFound => "No such file or directory (os error 2)"
  | notADirectory => "Not a directory (os error 20)"
  | isADirectory => "Is a directory (os error 21)"
  | nameTooLong => "File name too long (os error 36)"
  | containsNul => "file name contained an unexpected NUL byte"

/-- What stands at a path. -/
inductive FileNode where
  | directory
  | file (bytes : List UInt8)
  deriving DecidableEq

/-- Directories and files by their names from the root on. The root is always a directory. -/
structure FileSystem where
  workingDirectory : List String
  nodes : List (List String × FileNode)

namespace FileSystem

/-- The longest name of one component, in bytes. -/
def maxName : Nat := 255

/-- The longest path, in bytes. -/
def maxPath : Nat := 4095

/-- What stands at a place. -/
def node? (fs : FileSystem) (place : List String) : Option FileNode :=
  if place.isEmpty then some .directory
  else (fs.nodes.find? fun entry => decide (entry.1 = place)).map Prod.snd

/-- Takes one component of a path from a place. An empty component stays where it is. -/
def step (fs : FileSystem) (place : List String) (component : String) :
    Except FileError (List String) :=
  match fs.node? place with
  | none => .error .notFound
  | some (.file _) => .error .notADirectory
  | some .directory =>
    if component = "" ∨ component = "." then .ok place
    else if component = ".." then .ok place.dropLast
    else if maxName < component.utf8ByteSize then .error .nameTooLong
    else
      match fs.node? (place ++ [component]) with
      | none => .error .notFound
      | some _ => .ok (place ++ [component])

/-- The components of a path. -/
def components (path : String) : List String :=
  (Text.pieces (· == '/') path.toList).map String.ofList

/-- The place that a path leads to. -/
def place (fs : FileSystem) (path : String) : Except FileError (List String) :=
  if path.toList.contains '\x00' then .error .containsNul
  else if path = "" then .error .notFound
  else if maxPath < path.utf8ByteSize then .error .nameTooLong
  else
    (components path).foldlM fs.step
      (if path.toList.head? = some '/' then [] else fs.workingDirectory)

/-- The bytes of the file at a path. -/
def read (fs : FileSystem) (path : String) : Except FileError (List UInt8) :=
  match fs.place path with
  | .error error => .error error
  | .ok place =>
    match fs.node? place with
    | some (.file bytes) => .ok bytes
    | some .directory => .error .isADirectory
    | none => .error .notFound

end FileSystem

end SymbolRanges

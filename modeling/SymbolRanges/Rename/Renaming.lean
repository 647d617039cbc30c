import SymbolRanges.Rename.Path
import SymbolRanges.Text.Blank

/-!
# Lines of a rename table

Each line of a rename table holds one renaming, as words between blanks: a tag, the path of a
symbol, and what the tag calls for. Words after those are ignored, but for parameter names, of
which there may be any number. A renaming is an entry, which names what it renames, and the symbol
under which the entry is filed.
-/

set_option autoImplicit false

namespace SymbolRanges.Rename

/-- A method by its owner, name and descriptor. -/
structure Method where
  owner : String
  name : String
  signature : String
  deriving DecidableEq

/-- A class, by its qualified name, has a new simple name. -/
structure ClassRename where
  oldName : String
  newName : String
  deriving DecidableEq

/-- A field of a class has a new name. -/
structure FieldRename where
  owner : String
  oldName : String
  newName : String
  deriving DecidableEq

/-- A method, by its descriptor before anything is renamed, has a new name. -/
structure MethodRename where
  owner : String
  oldName : String
  signature : String
  newName : String
  deriving DecidableEq

/-- The parameters of a method have new names, in order. -/
structure ParameterNames where
  owner : String
  method : String
  signature : String
  names : List String
  deriving DecidableEq

/-- One renaming of a rename table: an entry, and the symbol under which it is filed. -/
inductive Renaming where
  | className (renamed : String) (entry : ClassRename)
  | field (renamed : Member) (entry : FieldRename)
  | method (renamed : Method) (entry : MethodRename)
  | parameters (renamed : Method) (entry : ParameterNames)
  deriving DecidableEq

/-- Why a line holds no renaming. -/
inductive Rejection where
  /-- It is blank. -/
  | blank
  /-- It has fewer than three words. -/
  | short
  /-- It renames a method and lacks the new name. -/
  | methodWithoutNewName
  /-- It starts with an unknown tag. -/
  | unrecognized
  deriving DecidableEq

namespace Renaming

/-- The tag of a class. -/
def classTag : String := "CL:"

/-- The tag of a field. -/
def fieldTag : String := "FD:"

/-- The tag of a method. -/
def methodTag : String := "MD:"

/-- The tag of the parameters of a method. -/
def parametersTag : String := "PA:"

/-- The renaming of a line with at least three words. -/
def ofTagged (tag path third : String) (more : List String) : Except Rejection Renaming :=
  let owner := pathOwner path
  let name := pathName path
  if tag = classTag then
    let oldName := (⟨owner, name⟩ : Member).className
    .ok (.className oldName ⟨oldName, pathName third⟩)
  else if tag = fieldTag then .ok (.field ⟨owner, name⟩ ⟨owner, name, pathName third⟩)
  else if tag = methodTag then
    match more with
    | [] => .error .methodWithoutNewName
    | newPath :: _ => .ok (.method ⟨owner, name, third⟩ ⟨owner, name, third, pathName newPath⟩)
  else if tag = parametersTag then
    .ok (.parameters ⟨owner, name, third⟩ ⟨owner, name, third, more⟩)
  else .error .unrecognized

/-- The renaming of the words of a line. -/
def ofWords : List String → Except Rejection Renaming
  | [] => .error .blank
  | tag :: path :: third :: more => ofTagged tag path third more
  | _ => .error .short

/-- The renaming of a line. -/
def ofLine (line : String) : Except Rejection Renaming := ofWords (Text.words line)

/-- What is renamed, in one word. -/
def subject : Renaming → String
  | className .. => "class"
  | field .. => "field"
  | method .. => "method"
  | parameters .. => "parameter"

end Renaming

end SymbolRanges.Rename

/-!
# Java types

The types of variables and methods, as the resolver of references knows them, and how they are
shown.
-/

set_option autoImplicit false

namespace SymbolRanges

/-- The primitive types and `void`. -/
inductive PrimitiveType where
  | boolean
  | byte
  | char
  | short
  | int
  | long
  | float
  | double
  | void
  deriving DecidableEq, Repr

/-- The keyword of a primitive type. -/
def PrimitiveType.keyword : PrimitiveType → String
  | .boolean => "boolean"
  | .byte => "byte"
  | .char => "char"
  | .short => "short"
  | .int => "int"
  | .long => "long"
  | .float => "float"
  | .double => "double"
  | .void => "void"

/-- The type of a value. -/
inductive TypeTerm where
  | primitive (type : PrimitiveType)
  /-- A class or interface. Its binary name has a dot between packages and a dollar sign between
  nested classes. -/
  | classType (binaryName : String) (arguments : List TypeTerm)
  | array (element : TypeTerm)
  /-- A type variable without a bound. -/
  | freeVariable (name : String)
  | boundedVariable (name : String) (bound : TypeTerm)

namespace TypeTerm

/-- Type arguments as they are shown behind the name of their class. -/
def angled : List String → String
  | [] => ""
  | shown => "<" ++ ",".intercalate shown ++ ">"

mutual

/-- A type as it is shown; type variables are shown without their bounds. -/
def display : TypeTerm → String
  | primitive type => type.keyword
  | classType binaryName arguments => binaryName ++ angled (displayAll arguments)
  | array element => element.display ++ "[]"
  | freeVariable name => name
  | boundedVariable name _ => name

/-- Several types as they are shown. -/
def displayAll : List TypeTerm → List String
  | [] => []
  | type :: rest => type.display :: displayAll rest

end

end TypeTerm

/-- The types of a method's parameters and of its result. -/
structure MethodType where
  parameters : List TypeTerm
  result : TypeTerm

/-- The type of a constructor, which has no result. -/
def MethodType.ofConstructor (parameters : List TypeTerm) : MethodType :=
  ⟨parameters, .primitive .void⟩

end SymbolRanges

/-!
# Symbol identities

The identity of a declared symbol. Identities are plain values, so a reference and its declaration
carry the same one.
-/

set_option autoImplicit false

namespace SymbolRanges

/-- The method that a stretch of code belongs to, or what stands in for one outside methods. -/
structure MethodLabel where
  name : String
  signature : String
  deriving DecidableEq

namespace MethodLabel

/-- Field initializers, class headers and the arguments of enum constants. -/
def outsideMethod : MethodLabel := ⟨"(outside-method)", ""⟩

/-- Static and instance initializer blocks. -/
def classInitializer : MethodLabel := ⟨"\x7b\x7d", ""⟩

instance : Inhabited MethodLabel := ⟨outsideMethod⟩

end MethodLabel

/-- A parameter or local variable of a method. -/
structure Variable where
  /-- The class that the method belongs to. -/
  owner : String
  method : MethodLabel
  name : String
  /-- The place among the declarations of the method, if it is known. -/
  index : Option Nat
  deriving DecidableEq

/-- The identity of a declared symbol. -/
inductive Identity where
  | package (name : String)
  | classDecl (name : String)
  | field (owner name : String)
  | method (owner name signature : String)
  | parameter (v : Variable)
  | localVariable (v : Variable)
  deriving DecidableEq

namespace Identity

/-- The label of a symbol's kind. -/
def label : Identity → String
  | package _ => "package"
  | classDecl _ => "class"
  | field _ _ => "field"
  | method _ _ _ => "method"
  | parameter _ => "param"
  | localVariable _ => "localvar"

/-- The name of a symbol, qualified for packages and classes. -/
def name : Identity → String
  | package name => name
  | classDecl name => name
  | field _ name => name
  | method _ name _ => name
  | parameter v => v.name
  | localVariable v => v.name

/-- The declaration index of a parameter or local variable. -/
def index : Identity → Option Nat
  | parameter v => v.index
  | localVariable v => v.index
  | _ => none

end Identity

end SymbolRanges

import SymbolRanges.Text.Span
import SymbolRanges.Type.Basic

/-!
# Targets of references

What a reference in the source points at. Variables are identified by the span of the identifier
that declares them, which is unique in a file.
-/

set_option autoImplicit false

namespace SymbolRanges

/-- Where a parameter is declared. The variables of for-each statements and catch sections are
parameters in form and local variables in effect. -/
inductive ParameterSite where
  | method
  | forEach
  | catchSection
  | lambda
  deriving DecidableEq, Repr

/-- The declaration that a reference points at. -/
inductive Target where
  | package (name : String)
  | classDecl (qualifiedName : String)
  | field (owner name : String)
  | method (owner name : String) (type : MethodType)
  | localVariable (declaration : Span) (name : String)
  | parameter (declaration : Span) (name : String) (scope : ParameterSite)
  /-- Anything else, such as a type parameter or a label. -/
  | other (description : String)

namespace Target

/-- The label of a target's kind. -/
def label : Target → String
  | package _ => "package"
  | classDecl _ => "class"
  | field _ _ => "field"
  | method _ _ _ => "method"
  | localVariable _ _ => "local variable"
  | parameter _ _ _ => "parameter"
  | other _ => "other"

/-- Whether a target is a class. -/
def isClass : Target → Bool
  | classDecl _ => true
  | _ => false

end Target

end SymbolRanges

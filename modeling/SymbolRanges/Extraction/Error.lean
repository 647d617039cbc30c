import SymbolRanges.Diagnostic
import SymbolRanges.Symbol.Identity
import SymbolRanges.Tree.Kind

/-!
# What goes wrong in an extraction

A failure drops a whole file, and a warning is only reported. Each is a value that says what
happened; the wording is in `message`.
-/

set_option autoImplicit false

namespace SymbolRanges

/-- A stretch of code in words: its class, and the name and signature of its method. -/
def scopeText (className : String) (method : MethodLabel) : String :=
  className ++ " " ++ method.name ++ "," ++ method.signature

/-- Why a file failed. Offsets are in the unit of the extraction. -/
inductive FileFailure where
  /-- A reference that points at nothing known. -/
  | unresolvedReference (file className : String) (method : MethodLabel) (name : String)
    (offset : Nat)
  /-- A method declaration with unknown types. -/
  | unresolvedMethodType (file className method : String) (offset : Nat)
  /-- A tree that is not a well-formed file. -/
  | malformedTree (file : String) (offset : Nat)
  deriving DecidableEq

namespace FileFailure

/-- The file that failed. -/
def file : FileFailure → String
  | unresolvedReference file _ _ _ _ => file
  | unresolvedMethodType file _ _ _ => file
  | malformedTree file _ => file

/-- Where the file failed. -/
def offset : FileFailure → Nat
  | unresolvedReference _ _ _ _ offset => offset
  | unresolvedMethodType _ _ _ offset => offset
  | malformedTree _ offset => offset

/-- The code of the diagnostic that goes with a failure. -/
def code : FileFailure → Code
  | unresolvedReference .. => .unresolvedReference
  | unresolvedMethodType .. => .unresolvedMethodType
  | malformedTree .. => .malformedTree

/-- The text of a failure. -/
def message : FileFailure → String
  | unresolvedReference file className method name offset =>
    "unresolved symbol `" ++ name ++ "` at " ++ file ++ ":" ++ toString offset ++ " in " ++
      scopeText className method
  | unresolvedMethodType file className method offset =>
    "unresolved types of method `" ++ method ++ "` at " ++ file ++ ":" ++ toString offset ++
      " in " ++ className
  | malformedTree file offset => "syntax error at " ++ file ++ ":" ++ toString offset

/-- The diagnostic that goes with a failure, in words of its own. -/
def diagnostic (failure : FileFailure) (message : String) : Diagnostic where
  severity := .error
  code := failure.code
  file := failure.file
  offset := some failure.offset
  message := message

end FileFailure

/-- Why a tree is not a well-formed file. -/
inductive Malformation where
  /-- Some element could not be parsed. -/
  | errorElement
  /-- The root is of another kind than a file's. -/
  | notASourceFile
  deriving DecidableEq

/-- A malformation in words. -/
def Malformation.message : Malformation → String
  | errorElement => "tree contains an error element"
  | notASourceFile => "root is not a source file"

/-- What an extraction passes over with a warning. -/
inductive Warning where
  /-- A reference to a local variable that was not declared before. -/
  | missingLocalIndex (name : String)
  /-- A reference to a parameter that the method does not have. -/
  | missingParameterIndex (name : String)
  /-- A reference to the parameter of a lambda expression. -/
  | lambdaParameter (name : String)
  /-- A reference to something that is not recorded. -/
  | unsupportedTarget (reference description : String)
  /-- A class declared in a method. -/
  | localClass
  /-- A declaration of another kind than a variable's or a class's. -/
  | unknownDeclaration (kind : Kind)
  /-- An index of ordinary code that injected code may have as well. -/
  | indexCollision (index : Nat) (name : String) (base : Nat)
  /-- A variable or parameter without a name. -/
  | namelessVariable (what : String)
  /-- A class or a member without a name. -/
  | namelessDeclaration (what : String)
  deriving DecidableEq

namespace Warning

/-- The code of a warning. -/
def code : Warning → Code
  | missingLocalIndex _ => .missingLocalIndex
  | missingParameterIndex _ => .missingParameterIndex
  | lambdaParameter _ => .unsupportedTarget
  | unsupportedTarget _ _ => .unsupportedTarget
  | localClass => .unsupportedDeclaration
  | unknownDeclaration _ => .unsupportedDeclaration
  | indexCollision _ _ _ => .indexCollision
  | namelessVariable _ => .missingName
  | namelessDeclaration _ => .missingName

/-- A warning in words; most say in which stretch of code it arose. -/
def message (scope : String) : Warning → String
  | missingLocalIndex name => "no index for local variable `" ++ name ++ "` in " ++ scope
  | missingParameterIndex name => "no index for parameter `" ++ name ++ "` in " ++ scope
  | lambdaParameter name => "lambda parameter `" ++ name ++ "` in " ++ scope ++ " is not indexed"
  | unsupportedTarget reference description =>
    "reference `" ++ reference ++ "` resolves to unsupported " ++ description
  | localClass => "local class in " ++ scope ++ " is not indexed"
  | unknownDeclaration kind => "unknown declaration " ++ kind.name ++ " in " ++ scope
  | indexCollision index name base =>
    "local index " ++ toString index ++ " of `" ++ name ++ "` reaches the injected base " ++
      toString base ++ " in " ++ scope
  | namelessVariable what => what ++ " without a name in " ++ scope
  | namelessDeclaration what => what ++ " without a name"

end Warning

end SymbolRanges

import SymbolRanges.Log

/-!
# Diagnostics

An extraction reports what it could not do. An error fails its file; after a warning the
extraction goes on.
-/

set_option autoImplicit false

namespace SymbolRanges

/-- How serious a diagnostic is. -/
inductive Severity where
  | error
  | warning
  deriving DecidableEq, Repr

/-- The label of a severity. -/
def Severity.label : Severity → String
  | .error => "error"
  | .warning => "warning"

/-- The level at which diagnostics of a severity are logged. -/
def Severity.level : Severity → Log.Level
  | .error => .error
  | .warning => .warn

/-- What a diagnostic is about. -/
inductive Code where
  /-- A reference that points at nothing known. -/
  | unresolvedReference
  /-- A method declaration with unknown types. -/
  | unresolvedMethodType
  /-- A tree that is not a well-formed file. -/
  | malformedTree
  /-- A reference to a local variable without a declaration index. -/
  | missingLocalIndex
  /-- A reference to a method parameter without a declaration index. -/
  | missingParameterIndex
  /-- A reference to something that is not recorded. -/
  | unsupportedTarget
  /-- A declaration that is not indexed. -/
  | unsupportedDeclaration
  /-- An index of ordinary code that injected code may have as well. -/
  | indexCollision
  /-- A declaration without a name. -/
  | missingName
  deriving DecidableEq, Repr

namespace Code

/-- The text of a code. -/
def text : Code → String
  | unresolvedReference => "E0001"
  | unresolvedMethodType => "E0002"
  | malformedTree => "E0003"
  | missingLocalIndex => "W0001"
  | missingParameterIndex => "W0002"
  | unsupportedTarget => "W0003"
  | unsupportedDeclaration => "W0004"
  | indexCollision => "W0005"
  | missingName => "W0006"

/-- Every code, errors first. -/
def all : List Code :=
  [unresolvedReference, unresolvedMethodType, malformedTree, missingLocalIndex,
    missingParameterIndex, unsupportedTarget, unsupportedDeclaration, indexCollision,
    missingName]

end Code

/-- A message about a place in a file. -/
structure Diagnostic where
  severity : Severity
  code : Code
  file : String
  /-- The offset of the identifier or construct in question, if it is known. -/
  offset : Option Nat
  message : String
  deriving DecidableEq

namespace Diagnostic

/-- Whether a diagnostic is an error. -/
def isError (d : Diagnostic) : Bool := decide (d.severity = .error)

/-- The text of an offset in the log. -/
def offsetText : Option Nat → String
  | some offset => "Some(" ++ toString offset ++ ")"
  | none => "None"

/-- How a diagnostic is logged. -/
def event (d : Diagnostic) : Log.Event where
  level := d.severity.level
  message := d.message
  fields := [("file", d.file), ("code", d.code.text), ("offset", offsetText d.offset)]

end Diagnostic

end SymbolRanges

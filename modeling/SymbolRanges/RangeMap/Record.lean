import SymbolRanges.Symbol.Identity

/-!
# Records of a range map

A record ties one occurrence of an identifier to the identity of the symbol that it names. It is
written as one line of columns between tabs.
-/

set_option autoImplicit false

namespace SymbolRanges

/-- One occurrence of a symbol: a file, a half-open range of offsets and an identity. -/
structure Record where
  file : String
  start : Nat
  stop : Nat
  identity : Identity
  deriving DecidableEq

namespace Record

/-- The first column of every record. -/
def marker : String := "@"

/-- What stands between two columns. -/
def delimiter : Char := '\t'

/-- The index that is written for a variable without one. -/
def missingIndex : Int := -1

end Record

/-- The index of a variable as it is written. -/
def Variable.indexText (v : Variable) : String :=
  match v.index with
  | some index => toString index
  | none => toString Record.missingIndex

/-- The columns that write a variable. -/
def Variable.columns (v : Variable) : List String :=
  [v.owner, v.method.name, v.method.signature, v.name, v.indexText]

/-- The columns that write an identity, after the label of its kind. -/
def Identity.columns : Identity → List String
  | package name => [name]
  | classDecl name => [name]
  | field owner name => [owner, name]
  | method owner name signature => [owner, name, signature]
  | parameter v => v.columns
  | localVariable v => v.columns

namespace Record

/-- The columns of a record. -/
def columns (r : Record) : List String :=
  marker :: r.file :: toString r.start :: toString r.stop :: r.identity.label :: r.identity.columns

/-- A record as a line, without its line end. -/
def line (r : Record) : String := (String.singleton delimiter).intercalate r.columns

end Record

end SymbolRanges

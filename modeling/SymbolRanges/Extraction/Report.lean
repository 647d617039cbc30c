import SymbolRanges.Extraction.File
import SymbolRanges.Table

/-!
# Reports

What became of each file of a run. A path that occurs more than once keeps the place of its first
occurrence and the outcome of its last.
-/

set_option autoImplicit false

namespace SymbolRanges

/-- Whether the records of a file were forwarded. -/
inductive FileVerdict where
  /-- All of them were. -/
  | extracted (records : Nat)
  /-- The file failed, and has none. -/
  | failed (error : FileFailure)
  deriving DecidableEq

/-- What became of a file. -/
structure FileSummary where
  verdict : FileVerdict
  diagnostics : List Diagnostic
  deriving DecidableEq

namespace FileSummary

/-- The error of a file that failed. -/
def error? (o : FileSummary) : Option FileFailure :=
  match o.verdict with
  | .extracted _ => none
  | .failed error => some error

/-- Whether a file was extracted. -/
def succeeded (o : FileSummary) : Bool := o.error?.isNone

/-- The number of records of a file. -/
def recordCount (o : FileSummary) : Nat :=
  match o.verdict with
  | .extracted records => records
  | .failed _ => 0

/-- The number of warnings about a file. -/
def warningCount (o : FileSummary) : Nat := o.diagnostics.countP fun d => !d.isError

end FileSummary

/-- What became of each file of a run, by path. -/
abbrev Report := Table String FileSummary

namespace Report

/-- Whether every file was extracted. -/
def succeeded (report : Report) : Bool := report.values.all FileSummary.succeeded

/-- The files that failed, with their errors. -/
def failures (report : Report) : List (String × FileFailure) :=
  report.entries.filterMap fun (path, o) => o.error?.map fun error => (path, error)

/-- The diagnostics of all files. -/
def diagnostics (report : Report) : List Diagnostic :=
  report.values.flatMap FileSummary.diagnostics

/-- The number of records of all files. -/
def recordCount (report : Report) : Nat :=
  report.values.foldr (fun o count => o.recordCount + count) 0

end Report

end SymbolRanges

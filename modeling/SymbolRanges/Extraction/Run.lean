import SymbolRanges.Extraction.Report
import SymbolRanges.RangeMap.Sink

/-!
# Runs over many files

A run extracts its units one after the other and forwards the records of those that succeed to a
sink. A file that fails does not stop the run; a refusal of the sink does.
-/

set_option autoImplicit false

namespace SymbolRanges

/-- A file to be extracted. -/
structure InputFile where
  /-- The path that its records carry. -/
  path : String
  tree : Tree

/-- Why a run stopped early. -/
inductive RunStop where
  /-- The sink refused a record. -/
  | sinkFailed (error : SinkError)
  /-- A declaration found the counter of indices used up. -/
  | indexOverflow
  deriving DecidableEq

/-- What a run leaves behind. -/
structure RunOutcome (σ : Type) where
  events : List Log.Event
  sink : σ
  result : Except RunStop Report

/-- How a run treats its units. -/
structure Extractor where
  resolver : Resolver
  options : Options

namespace Extractor

variable {σ : Type}

/-- Extracts one unit. -/
def extractInput (e : Extractor) (unit : InputFile) : ExtractedFile :=
  extract unit.path unit.tree e.resolver e.options

/-- How the start of a unit is logged. -/
def startEvent (path : String) : Log.Event := ⟨.debug, "extracting", [("file", path)]⟩

/-- How the failure of a unit is logged. -/
def skipEvent (path : String) (error : FileFailure) : Log.Event :=
  ⟨.warn, "skipping file: " ++ error.message, [("file", path)]⟩

/-- How a second outcome for a path is logged. -/
def repeatEvent (path : String) : Log.Event :=
  ⟨.warn, "file extracted twice, keeping the later outcome", [("file", path)]⟩

/-- How the end of a run is logged. -/
def finishEvent (report : Report) : Log.Event where
  level := .info
  message := "extraction finished"
  fields :=
    [("files", toString report.size), ("failed", toString report.failures.length),
      ("records", toString report.recordCount)]

/-- What the report says about a unit that did not stop the run. -/
def settle (report : Report) (path : String) (o : FileSummary) : List Log.Event × Report :=
  (if report.contains path then [repeatEvent path] else [], report.insert path o)

/-- Extracts units in order, and goes on with a report of those before them. -/
def runFrom (e : Extractor) (accept : Sink σ) :
    List InputFile → σ → Report → RunOutcome σ
  | [], sink, report => ⟨[finishEvent report], sink, .ok report⟩
  | unit :: rest, sink, report =>
    let extraction := e.extractInput unit
    let events := startEvent unit.path :: extraction.events
    match extraction.result with
    | .error .indexOverflow => ⟨events, sink, .error .indexOverflow⟩
    | .error (.failed error) =>
      let (repeated, report) := settle report unit.path ⟨.failed error, extraction.diagnostics⟩
      let next := runFrom e accept rest sink report
      ⟨events ++ skipEvent unit.path error :: repeated ++ next.events, next.sink, next.result⟩
    | .ok () =>
      match accept.forward sink extraction.records with
      | (sink, some error) => ⟨events, sink, .error (.sinkFailed error)⟩
      | (sink, none) =>
        let (repeated, report) := settle report unit.path
          ⟨.extracted extraction.records.length, extraction.diagnostics⟩
        let next := runFrom e accept rest sink report
        ⟨events ++ repeated ++ next.events, next.sink, next.result⟩

/-- Extracts units in order, and forwards the records of those that succeed to a sink. -/
def run (e : Extractor) (accept : Sink σ) (units : List InputFile) (sink : σ) : RunOutcome σ :=
  e.runFrom accept units sink ∅

end Extractor

end SymbolRanges

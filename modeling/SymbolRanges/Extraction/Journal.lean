import SymbolRanges.Diagnostic
import SymbolRanges.RangeMap.Record

/-!
# Journals

An extraction writes down what it does, entry by entry. The records, the diagnostics and the log
of an extraction are three views of its journal.
-/

set_option autoImplicit false

namespace SymbolRanges

/-- One thing that an extraction did. -/
inductive Entry where
  /-- It recorded an occurrence. -/
  | record (r : Record)
  /-- It reported a diagnostic. -/
  | diagnostic (d : Diagnostic)
  /-- It only logged an event. -/
  | note (event : Log.Event)
  deriving DecidableEq

/-- What an extraction did, in order. -/
abbrev Journal := List Entry

/-- How a record is logged. -/
def Record.event (r : Record) : Log.Event where
  level := .trace
  message := "emit"
  fields := [("file", r.file), ("start", toString r.start), ("end", toString r.stop)]

namespace Entry

/-- The record of an entry, if it is one. -/
def record? : Entry → Option Record
  | record r => some r
  | _ => none

/-- The diagnostic of an entry, if it is one. -/
def diagnostic? : Entry → Option Diagnostic
  | diagnostic d => some d
  | _ => none

/-- How an entry is logged. -/
def event : Entry → Log.Event
  | record r => r.event
  | diagnostic d => d.event
  | note event => event

end Entry

namespace Journal

/-- The records of a journal, in order. -/
def records (journal : Journal) : List Record := journal.filterMap Entry.record?

/-- The diagnostics of a journal, in order. -/
def diagnostics (journal : Journal) : List Diagnostic := journal.filterMap Entry.diagnostic?

/-- The log of a journal, in order. -/
def events (journal : Journal) : List Log.Event := journal.map Entry.event

/-- Journals one behind the other have their records one behind the other. -/
@[simp] theorem records_append (xs ys : Journal) :
    records (xs ++ ys) = records xs ++ records ys := by
  simp [records]

/-- Journals one behind the other have their diagnostics one behind the other. -/
@[simp] theorem diagnostics_append (xs ys : Journal) :
    diagnostics (xs ++ ys) = diagnostics xs ++ diagnostics ys := by
  simp [diagnostics]

/-- Journals one behind the other have their events one behind the other. -/
@[simp] theorem events_append (xs ys : Journal) : events (xs ++ ys) = events xs ++ events ys := by
  simp [events]

end Journal

end SymbolRanges

/-!
# Log events

What a computation reports about its progress, as data. An event has a level, a message and
named fields; a reader asks for the events from some level up.
-/

set_option autoImplicit false

namespace SymbolRanges.Log

/-- How severe an event is, least severe first. -/
inductive Level where
  | trace
  | debug
  | info
  | warn
  | error
  deriving DecidableEq, Repr

/-- The place of a level among the levels, by severity. -/
def Level.rank : Level → Nat
  | .trace => 0
  | .debug => 1
  | .info => 2
  | .warn => 3
  | .error => 4

/-- The label of a level. -/
def Level.label : Level → String
  | .trace => "TRACE"
  | .debug => "DEBUG"
  | .info => "INFO"
  | .warn => "WARN"
  | .error => "ERROR"

/-- One event; every field is a name with the text of its value. -/
structure Event where
  level : Level
  message : String
  fields : List (String × String)
  deriving DecidableEq, Repr

/-- The events that are at least as severe as a level, in order. -/
def atLeast (level : Level) (events : List Event) : List Event :=
  events.filter fun event => decide (level.rank ≤ event.level.rank)

/-- From the least severe level up every event is kept. -/
@[simp] theorem atLeast_trace (events : List Event) : atLeast .trace events = events := by
  simp [atLeast, Level.rank]

/-- The events of two stretches in a row are those of the one and then of the other. -/
@[simp] theorem atLeast_append (level : Level) (xs ys : List Event) :
    atLeast level (xs ++ ys) = atLeast level xs ++ atLeast level ys := by
  simp [atLeast]

end SymbolRanges.Log

import SymbolRanges.RangeMap.Record
import SymbolRanges.Text.Utf8

/-!
# Sinks

A sink takes records one by one and may refuse one. Records are forwarded in order, and the first
refusal ends the forwarding: `forward` returns the sink as it was left, with the refusal.
-/

set_option autoImplicit false

namespace SymbolRanges

/-- Why a sink refused a record. -/
inductive SinkError where
  /-- The sink's own reason. -/
  | other (message : String)
  /-- The record did not fit into what was left of a buffer. -/
  | bufferFull
  deriving DecidableEq

/-- The text of a refusal. -/
def SinkError.message : SinkError → String
  | other message => message
  | bufferFull => "failed to write whole buffer"

/-- How a sink with state `σ` takes a record: the state afterwards, and a refusal if there is
one. -/
abbrev Sink (σ : Type) := σ → Record → σ × Option SinkError

namespace Sink

variable {σ : Type}

/-- Hands records to a sink in order, up to the first refusal. -/
def forward (sink : Sink σ) : σ → List Record → σ × Option SinkError
  | state, [] => (state, none)
  | state, r :: rest =>
    match sink state r with
    | (state, none) => forward sink state rest
    | (state, some error) => (state, some error)

/-- Collects every record. -/
def collect : Sink (List Record) := fun records r => (records ++ [r], none)

/-- Collects a number of records, and refuses all others for a given reason. -/
def collectUpTo (limit : Nat) (message : String) : Sink (List Record) := fun records r =>
  if records.length < limit then (records ++ [r], none) else (records, some (.other message))

/-- Forwarding no records leaves a sink as it is. -/
@[simp] theorem forward_nil (sink : Sink σ) (state : σ) :
    sink.forward state [] = (state, none) := rfl

/-- Collecting never refuses, and keeps the order. -/
@[simp] theorem forward_collect (records more : List Record) :
    collect.forward records more = (records ++ more, none) := by
  induction more generalizing records with
  | nil => simp
  | cons r rest ih => simp [forward, collect, ih]

end Sink

/-- A range map being written, with room for a number of bytes, or for any number. -/
structure MapWriter where
  capacity : Option Nat
  bytes : List UInt8
  /-- The lines written completely. -/
  written : Nat

namespace MapWriter

/-- A writer that has written nothing. -/
def empty (capacity : Option Nat) : MapWriter := ⟨capacity, [], 0⟩

/-- The bytes of a record's line with its line end. -/
def lineBytes (r : Record) : List UInt8 := Text.Utf8.encode (r.line ++ "\n")

/-- Writes a record as a line. Where a line does not fit, the room is filled with its first bytes
and the record is refused. -/
def accept : Sink MapWriter := fun w r =>
  let bytes := w.bytes ++ lineBytes r
  match w.capacity with
  | none => ({ w with bytes, written := w.written + 1 }, none)
  | some capacity =>
    if bytes.length ≤ capacity then ({ w with bytes, written := w.written + 1 }, none)
    else ({ w with bytes := bytes.take capacity }, some .bufferFull)

/-- The text written; a character cut by the end of the room is replaced. -/
def text (w : MapWriter) : String := Text.Utf8.decodeLossy w.bytes

end MapWriter

end SymbolRanges

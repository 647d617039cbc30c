import SymbolRanges.FileSystem
import SymbolRanges.Rename.Tables
import SymbolRanges.Text.Line
import SymbolRanges.Text.Utf8

/-!
# Loading rename tables

Rename tables are read from a text or from a source of bytes. A source is read line by line until it
ends or fails. A line that is no well-formed text is skipped; only a failure of the source fails the
load, and the lines that were complete before it are still logged.
-/

set_option autoImplicit false

namespace SymbolRanges.Rename

/-- Why there are no tables. -/
inductive LoadError where
  /-- The file at a path could not be read. -/
  | file (path : String) (error : FileError)
  /-- A source of bytes failed, for a reason of its own. -/
  | source (reason : String)
  deriving DecidableEq

/-- The text of a failed load. -/
def LoadError.message : LoadError → String
  | file path error => "failed to read mapping file " ++ path ++ ": " ++ error.message
  | source reason => "failed to read mappings: " ++ reason

/-- What a load leaves behind: the log, and the tables or the reason why there are none. -/
structure Loaded where
  events : List Log.Event
  result : Except LoadError Tables

/-- Tables together with the log of the lines that they hold. -/
structure Progress where
  events : List Log.Event
  tables : Tables

namespace Progress

/-- Nothing is read yet. -/
def start : Progress := ⟨[], .empty⟩

/-- Takes a line. -/
def addLine (p : Progress) (line : String) : Progress :=
  ⟨p.events ++ p.tables.lineEvents line, p.tables.addLine line⟩

/-- How a line that is no well-formed text is logged. -/
def malformedEvent (line : List UInt8) : Log.Event :=
  Tables.lineEvent .trace "skipping mapping line that is not UTF-8"
    (Text.trimEnd (Text.Utf8.decodeLossy line))

/-- Takes the bytes of a line, its line end included. -/
def addBytes (p : Progress) (line : List UInt8) : Progress :=
  match Text.Utf8.decode? line with
  | some line => p.addLine line
  | none => ⟨p.events ++ [malformedEvent line], p.tables.skip⟩

end Progress

/-- The byte that ends a line. -/
def lineFeed : UInt8 := 0x0A

/-- A source of bytes: what it has yet to yield, and the reason if it fails then. -/
structure ByteSource (ε : Type) where
  bytes : List UInt8
  failure? : Option ε

section Reading

variable {ε : Type}

/-- Reads a line: up to the next line feed, which is read too, or up to the end of the source. No
bytes are read once the source has ended. -/
def ByteSource.readLine (source : ByteSource ε) : Except ε (List UInt8 × ByteSource ε) :=
  let line := source.bytes.takeWhile (· != lineFeed)
  match source.bytes.dropWhile (· != lineFeed), source.failure? with
  | feed :: rest, _ => .ok (line ++ [feed], { source with bytes := rest })
  | [], none => .ok (line, { source with bytes := [] })
  | [], some reason => .error reason

/-- Reading takes the bytes of the line from the source. -/
theorem ByteSource.bytes_of_readLine {source rest : ByteSource ε} {line : List UInt8}
    (h : source.readLine = .ok (line, rest)) : source.bytes = line ++ rest.bytes := by
  have hsplit : source.bytes.takeWhile (· != lineFeed) ++
      source.bytes.dropWhile (· != lineFeed) = source.bytes := List.takeWhile_append_dropWhile
  unfold readLine at h
  split at h
  · next feed rest' hdrop =>
    cases h
    rw [List.append_assoc, List.singleton_append, ← hdrop, hsplit]
  · next hdrop _ =>
    cases h
    rw [← hdrop, hsplit]
  · cases h

/-- A source is shorter once a line was read from it that is not empty. -/
theorem ByteSource.length_lt_of_readLine {source rest : ByteSource ε} {line : List UInt8}
    (h : source.readLine = .ok (line, rest)) (hne : line ≠ []) :
    rest.bytes.length < source.bytes.length := by
  have hpos := List.length_pos_iff.2 hne
  rw [bytes_of_readLine h, List.length_append]
  omega

/-- Takes the lines of a source until nothing more is read, or until the source fails: what was read
up to there, and the reason of the failure. -/
def Progress.addLines (p : Progress) (source : ByteSource ε) : Progress × Option ε :=
  match _h : source.readLine with
  | .error reason => (p, some reason)
  | .ok (line, rest) => if line = [] then (p, none) else (p.addBytes line).addLines rest
termination_by source.bytes.length
decreasing_by exact ByteSource.length_lt_of_readLine ‹_› ‹_›

end Reading

/-- What the lines of a text say. -/
def readText (text : String) : Progress := (Text.lines text).foldl Progress.addLine .start

/-- The tables of a text. -/
def ofText (text : String) : Tables := (readText text).tables

/-- Ends a load with a summary under the name of its source. -/
def Progress.finish (p : Progress) (source : String) : Loaded :=
  ⟨p.events ++ p.tables.summaryEvents source, .ok p.tables⟩

/-- Loads tables from a named source of bytes. -/
def loadLines {ε : Type} (source : ByteSource ε) (name : String) (error : ε → LoadError) : Loaded :=
  match Progress.start.addLines source with
  | (p, none) => p.finish name
  | (p, some reason) => ⟨p.events, .error (error reason)⟩

/-- Loads tables from a source of bytes that has no name of its own. -/
def ByteSource.load (source : ByteSource String) : Loaded := loadLines source "reader" .source

/-- Loads tables from the file at a path. -/
def loadFile (fs : FileSystem) (path : String) : Loaded :=
  match fs.read path with
  | .error error => ⟨[], .error (.file path error)⟩
  | .ok bytes => loadLines ⟨bytes, none⟩ path (.file path)

end SymbolRanges.Rename

import SymbolRanges.Log
import SymbolRanges.Rename.Renaming
import SymbolRanges.Table

/-!
# Rename tables

The renamings of a rename table by what they rename. For each of the four kinds of renaming, a
symbol keeps the place of its first renaming and has the entry of its last. Lines without a renaming
are counted and change nothing else.
-/

set_option autoImplicit false

namespace SymbolRanges.Rename

/-- What a rename table says. -/
structure Tables where
  /-- The entry of each class, by its qualified name. -/
  classes : Table String ClassRename
  fields : Table Member FieldRename
  methods : Table Method MethodRename
  parameters : Table Method ParameterNames
  /-- The lines with too few words, or with bytes that are no text. -/
  skipped : Nat
  /-- The lines with an unknown tag. -/
  unrecognized : Nat

namespace Tables

/-- The tables that say nothing. -/
def empty : Tables := ⟨∅, ∅, ∅, ∅, 0, 0⟩

/-- Whether nothing is renamed. -/
def isEmpty (t : Tables) : Bool :=
  t.classes.isEmpty && t.fields.isEmpty && t.methods.isEmpty && t.parameters.isEmpty

/-- Adds a renaming. -/
def insert (t : Tables) : Renaming → Tables
  | .className renamed entry => { t with classes := t.classes.insert renamed entry }
  | .field renamed entry => { t with fields := t.fields.insert renamed entry }
  | .method renamed entry => { t with methods := t.methods.insert renamed entry }
  | .parameters renamed entry => { t with parameters := t.parameters.insert renamed entry }

/-- Whether a renaming of the same kind for the same symbol is there already. -/
def contains (t : Tables) : Renaming → Bool
  | .className renamed _ => t.classes.contains renamed
  | .field renamed _ => t.fields.contains renamed
  | .method renamed _ => t.methods.contains renamed
  | .parameters renamed _ => t.parameters.contains renamed

/-- Counts a line that was skipped. -/
def skip (t : Tables) : Tables := { t with skipped := t.skipped + 1 }

/-- Counts a line without a renaming. -/
def reject (t : Tables) : Rejection → Tables
  | .blank | .short | .methodWithoutNewName => t.skip
  | .unrecognized => { t with unrecognized := t.unrecognized + 1 }

/-- Takes a line. -/
def addLine (t : Tables) (line : String) : Tables :=
  match Renaming.ofLine line with
  | .ok r => t.insert r
  | .error rejection => t.reject rejection

/-- The new name of a parameter of a method. -/
def parameterName? (t : Tables) (method : Method) (index : Nat) : Option String :=
  (t.parameters.find? method).bind fun entry => entry.names[index]?

/-! ### The log -/

/-- An event about a line. -/
def lineEvent (level : Log.Level) (message line : String) : Log.Event :=
  ⟨level, message, [("line", line)]⟩

/-- How a line without a renaming is logged; blank lines are not. -/
def rejectionEvents (line : String) : Rejection → List Log.Event
  | .blank => []
  | .short => [lineEvent .trace "skipping short mapping line" line]
  | .methodWithoutNewName => [lineEvent .trace "method mapping without a new name" line]
  | .unrecognized => [lineEvent .trace "unrecognized mapping line" line]

/-- How a line is logged when it comes after the lines of some tables. -/
def lineEvents (t : Tables) (line : String) : List Log.Event :=
  match Renaming.ofLine line with
  | .error rejection => rejectionEvents line rejection
  | .ok r =>
    if t.contains r then
      [lineEvent .debug ("duplicate " ++ r.subject ++ " mapping, keeping the later one") line]
    else []

/-- How many renamings were loaded from where, in one sentence. -/
def summary (t : Tables) (source : String) : String :=
  "Loaded " ++ toString t.fields.size ++ " fields, " ++ toString t.methods.size ++ " methods, " ++
    toString t.parameters.size ++ " method parameter lists, " ++ toString t.classes.size ++
    " classes from " ++ source

/-- How the end of a load is logged. -/
def summaryEvents (t : Tables) (source : String) : List Log.Event :=
  ⟨.info, t.summary source, []⟩ ::
    if 0 < t.skipped ∨ 0 < t.unrecognized then
      [⟨.debug, "ignored mapping lines",
        [("skipped", toString t.skipped), ("unrecognized", toString t.unrecognized)]⟩]
    else []

end Tables

end SymbolRanges.Rename

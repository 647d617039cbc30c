import SymbolRanges.Proofs.Text.Split
import SymbolRanges.Proofs.Text.Utf8
import SymbolRanges.RangeMap.Sink

/-!
# Reading a range map

A range map has no escapes: a tab in a name would be taken for the end of a column, and a line feed
for the end of a record. Records without them can be read back from the text of the map, because the
label of a record fixes how many columns follow it and a missing index is written as no number is.
`Record.ofColumns?` undoes the columns of one record, and `readMap?` what a writer has written.
-/

set_option autoImplicit false

namespace SymbolRanges

/-! ### Columns -/

/-- A number is written in digits. -/
theorem notMem_toString {c : Char} (h : c.isDigit = false) (n : Nat) :
    c ∉ (toString n).toList := by
  rw [Nat.toString_eq_repr, Nat.toList_repr]
  intro hc
  have hdigit : c.isDigit = true := Nat.isDigit_of_mem_toDigits (by decide) (by decide) hc
  rw [h] at hdigit
  cases hdigit

/-- Reads a number in the form in which it is written. -/
def readNumber? (text : String) : Option Nat :=
  let n := Nat.ofDigitChars 10 text.toList 0
  if text = toString n then some n else none

/-- A written number is read as itself. -/
theorem readNumber?_toString (n : Nat) : readNumber? (toString n) = some n := by
  have hdigits : Nat.ofDigitChars 10 (toString n).toList 0 = n := by
    rw [Nat.toString_eq_repr, Nat.toList_repr]
    exact Nat.ofDigitChars_toDigits (by decide) (by decide)
  simp only [readNumber?, hdigits, if_true]

/-- Reads the index of a variable, which may be missing. -/
def readIndex? (text : String) : Option (Option Nat) :=
  if text = toString Record.missingIndex then some none else (readNumber? text).map some

/-- A missing index is not written as any number is. -/
theorem readIndex?_indexText (v : Variable) : readIndex? v.indexText = some v.index := by
  unfold readIndex? Variable.indexText
  cases v.index with
  | none => rfl
  | some index =>
    have hne : toString index ≠ toString Record.missingIndex := by
      intro h
      have hminus : '-' ∈ (toString Record.missingIndex).toList := by decide
      rw [← h] at hminus
      exact notMem_toString (by decide) index hminus
    simp only [if_neg hne, readNumber?_toString, Option.map_some]

/-- Reads a variable from its columns. -/
def Variable.ofColumns? : List String → Option Variable
  | [owner, method, signature, name, index] =>
    (readIndex? index).map fun index => ⟨owner, ⟨method, signature⟩, name, index⟩
  | _ => none

/-- The columns of a variable are read as the variable. -/
theorem Variable.ofColumns?_columns (v : Variable) : Variable.ofColumns? v.columns = some v := by
  rw [Variable.columns, Variable.ofColumns?, readIndex?_indexText, Option.map_some]

/-- Reads an identity from the label of its kind and its columns. -/
def Identity.ofColumns? : String → List String → Option Identity
  | "package", [name] => some (.package name)
  | "class", [name] => some (.classDecl name)
  | "field", [owner, name] => some (.field owner name)
  | "method", [owner, name, signature] => some (.method owner name signature)
  | "param", columns => (Variable.ofColumns? columns).map .parameter
  | "localvar", columns => (Variable.ofColumns? columns).map .localVariable
  | _, _ => none

/-- The columns of an identity are read as the identity. -/
theorem Identity.ofColumns?_columns (identity : Identity) :
    Identity.ofColumns? identity.label identity.columns = some identity := by
  cases identity with
  | package name => rfl
  | classDecl name => rfl
  | field owner name => rfl
  | method owner name signature => rfl
  | parameter v => simp [label, columns, ofColumns?, Variable.ofColumns?_columns]
  | localVariable v => simp [label, columns, ofColumns?, Variable.ofColumns?_columns]

/-- Reads a record from its columns. -/
def Record.ofColumns? : List String → Option Record
  | "@" :: file :: start :: stop :: label :: columns => do
    let start ← readNumber? start
    let stop ← readNumber? stop
    let identity ← Identity.ofColumns? label columns
    some ⟨file, start, stop, identity⟩
  | _ => none

/-- The columns of a record are read as the record. -/
theorem Record.ofColumns?_columns (r : Record) : Record.ofColumns? r.columns = some r := by
  simp only [columns, marker, ofColumns?, readNumber?_toString, Identity.ofColumns?_columns,
    Option.bind_eq_bind, Option.bind_some]

/-! ### Lines -/

/-- A text that can stand in a column: no tab and no line feed. -/
def FitsColumn (text : String) : Prop := Record.delimiter ∉ text.toList ∧ '\n' ∉ text.toList

instance (text : String) : Decidable (FitsColumn text) := inferInstanceAs (Decidable (_ ∧ _))

/-- A written number fits into a column. -/
theorem fitsColumn_toString (n : Nat) : FitsColumn (toString n) :=
  ⟨notMem_toString (by decide) n, notMem_toString (by decide) n⟩

/-- The index of a variable fits into a column. -/
theorem fitsColumn_indexText (v : Variable) : FitsColumn v.indexText := by
  unfold Variable.indexText
  split
  · exact fitsColumn_toString _
  · decide

/-- The texts in an identity. -/
def Identity.texts : Identity → List String
  | package name => [name]
  | classDecl name => [name]
  | field owner name => [owner, name]
  | method owner name signature => [owner, name, signature]
  | parameter v => [v.owner, v.method.name, v.method.signature, v.name]
  | localVariable v => [v.owner, v.method.name, v.method.signature, v.name]

/-- The label of an identity fits into a column. -/
theorem Identity.fitsColumn_label (identity : Identity) : FitsColumn identity.label := by
  cases identity <;> simp only [label] <;> decide

/-- The columns of an identity are its texts, and the index of a variable. -/
theorem Identity.fitsColumn_of_mem_columns {identity : Identity}
    (h : ∀ text ∈ identity.texts, FitsColumn text) :
    ∀ column ∈ identity.columns, FitsColumn column := by
  cases identity with
  | package name => exact h
  | classDecl name => exact h
  | field owner name => exact h
  | method owner name signature => exact h
  | parameter v => simpa [texts, columns, Variable.columns, fitsColumn_indexText] using h
  | localVariable v => simpa [texts, columns, Variable.columns, fitsColumn_indexText] using h

namespace Record

/-- A record that can stand in a line: all of its texts can stand in columns. -/
def FitsLine (r : Record) : Prop := ∀ text ∈ r.file :: r.identity.texts, FitsColumn text

instance (r : Record) : Decidable r.FitsLine := inferInstanceAs (Decidable (∀ _ ∈ _, _))

variable {r : Record}

/-- The columns of a record that fits a line fit into columns. -/
theorem FitsLine.fitsColumn (h : r.FitsLine) : ∀ column ∈ r.columns, FitsColumn column := by
  have hmarker : FitsColumn marker := by decide
  obtain ⟨hfile, htexts⟩ := List.forall_mem_cons.1 h
  simp only [columns, List.forall_mem_cons]
  exact ⟨hmarker, hfile, fitsColumn_toString r.start, fitsColumn_toString r.stop,
    r.identity.fitsColumn_label, Identity.fitsColumn_of_mem_columns htexts⟩

/-- The line of a record is its columns with delimiters between them. -/
theorem toList_line (r : Record) :
    r.line.toList = [delimiter].intercalate (r.columns.map String.toList) := by
  rw [line, String.toList_intercalate, String.toList_singleton]

/-- The line of a record that fits one holds no line feed. -/
theorem FitsLine.lineFeed_notMem (h : r.FitsLine) : '\n' ∉ r.line.toList := by
  rw [toList_line]
  intro hmem
  rcases Text.mem_of_mem_intercalate hmem with hdelimiter | ⟨characters, hcharacters, hfeed⟩
  · exact absurd hdelimiter (by decide)
  · obtain ⟨column, hcolumn, rfl⟩ := List.mem_map.1 hcharacters
    exact (h.fitsColumn column hcolumn).2 hfeed

/-- Reads a record from the characters of its line. -/
def ofLine? (line : List Char) : Option Record :=
  ofColumns? ((Text.pieces (· == delimiter) line).map String.ofList)

/-- The line of a record that fits one is read as the record. -/
theorem FitsLine.ofLine?_line (h : r.FitsLine) : ofLine? r.line.toList = some r := by
  have hpieces : Text.pieces (· == delimiter) r.line.toList = r.columns.map String.toList := by
    rw [toList_line]
    refine Text.pieces_intercalate delimiter (by simp [columns]) ?_
    intro characters hmem
    obtain ⟨column, hcolumn, rfl⟩ := List.mem_map.1 hmem
    exact (h.fitsColumn column hcolumn).1
  rw [ofLine?, hpieces, List.map_map, String.ofList_comp_toList, List.map_id, ofColumns?_columns]

end Record

/-! ### Maps -/

namespace MapWriter

/-- A record that is taken adds its line and counts as written. -/
theorem accept_eq_none {w w' : MapWriter} {r : Record} (h : accept w r = (w', none)) :
    w'.bytes = w.bytes ++ lineBytes r ∧ w'.written = w.written + 1 := by
  simp only [accept] at h
  split at h
  · cases h
    exact ⟨rfl, rfl⟩
  · split at h
    · cases h
      exact ⟨rfl, rfl⟩
    · cases h

/-- Records that are all taken add all of their lines. -/
theorem forward_eq_none {w w' : MapWriter} {records : List Record}
    (h : accept.forward w records = (w', none)) :
    w'.bytes = w.bytes ++ records.flatMap lineBytes ∧ w'.written = w.written + records.length := by
  induction records generalizing w with
  | nil =>
    cases h
    simp
  | cons r rest ih =>
    rw [Sink.forward] at h
    split at h
    · next next hr =>
      obtain ⟨hbytes, hwritten⟩ := accept_eq_none hr
      obtain ⟨hbytes', hwritten'⟩ := ih h
      rw [hbytes', hwritten', hbytes, hwritten, List.flatMap_cons, List.append_assoc,
        List.length_cons]
      exact ⟨rfl, by omega⟩
    · cases h

/-- A writer with room for any number of bytes takes every record. -/
theorem forward_unbounded {w : MapWriter} (h : w.capacity = none) (records : List Record) :
    (accept.forward w records).2 = none := by
  induction records generalizing w with
  | nil => rfl
  | cons r rest ih =>
    have hr : accept w r =
        ({ w with bytes := w.bytes ++ lineBytes r, written := w.written + 1 }, none) := by
      simp only [accept, h]
    rw [Sink.forward, hr]
    exact ih h

/-- What was written is the lines of the records, each with its line feed. -/
theorem toList_text {capacity : Option Nat} {records : List Record} {w : MapWriter}
    (h : accept.forward (.empty capacity) records = (w, none)) :
    w.text.toList = (records.map fun r => r.line.toList).flatMap (· ++ ['\n']) := by
  have hline (r : Record) :
      lineBytes r = (r.line.toList ++ ['\n']).flatMap String.utf8EncodeChar := by
    rw [lineBytes, Text.Utf8.encode, String.toList_append]
    rfl
  have hbytes : w.bytes = Text.Utf8.encode (String.ofList
      ((records.map fun r => r.line.toList).flatMap (· ++ ['\n']))) := by
    rw [(forward_eq_none h).1, Text.Utf8.encode, String.toList_ofList, List.flatMap_map,
      List.flatMap_assoc, funext hline]
    rfl
  rw [text, hbytes, Text.Utf8.decodeLossy_encode, String.toList_ofList]

end MapWriter

/-- Reads the records of a map. What stands after the last line feed is no line of it. -/
def readMap? (text : String) : Option (List Record) :=
  (Text.pieces (· == '\n') text.toList).dropLast.mapM Record.ofLine?

/-- The lines of records that fit them are read as the records. -/
theorem mapM_ofLine?_lines {records : List Record} (h : ∀ r ∈ records, r.FitsLine) :
    (records.map fun r => r.line.toList).mapM Record.ofLine? = some records := by
  induction records with
  | nil => rfl
  | cons r rest ih =>
    obtain ⟨hr, hrest⟩ := List.forall_mem_cons.1 h
    rw [List.map_cons, List.mapM_cons, hr.ofLine?_line, ih hrest]
    rfl

/-- The text of records that fit into lines has one line for each of them, and reading it gives them
back. -/
theorem readMap?_text {capacity : Option Nat} {records : List Record} {w : MapWriter}
    (h : MapWriter.accept.forward (.empty capacity) records = (w, none))
    (hfits : ∀ r ∈ records, r.FitsLine) :
    readMap? w.text = some records ∧ w.text.toList.count '\n' = records.length := by
  have hlines : ∀ line ∈ records.map fun r => r.line.toList, '\n' ∉ line := by
    intro line hline
    obtain ⟨r, hr, rfl⟩ := List.mem_map.1 hline
    exact (hfits r hr).lineFeed_notMem
  rw [readMap?, MapWriter.toList_text h]
  constructor
  · rw [Text.pieces_flatMap_concat '\n' hlines, List.dropLast_concat, mapM_ofLine?_lines hfits]
  · rw [Text.count_flatMap_concat '\n' hlines, List.length_map]

/-- A writer with enough room takes any records, and the text that it has written determines them:
it counts as many records as it was given, the text of records that fit into lines has as many line
feeds, reading it gives these records back, and no other such records have the same text. -/
theorem written_text_determines_records (records : List Record) :
    (MapWriter.accept.forward (.empty none) records).2 = none ∧
    ∀ capacity w, MapWriter.accept.forward (.empty capacity) records = (w, none) →
      w.written = records.length ∧
      ((∀ r ∈ records, r.FitsLine) →
        w.text.toList.count '\n' = records.length ∧
        readMap? w.text = some records ∧
        ∀ others capacity' w',
          MapWriter.accept.forward (.empty capacity') others = (w', none) →
          (∀ r ∈ others, r.FitsLine) → w'.text = w.text → others = records) := by
  refine ⟨MapWriter.forward_unbounded rfl records, ?_⟩
  intro capacity w h
  refine ⟨?_, ?_⟩
  · rw [(MapWriter.forward_eq_none h).2]
    exact Nat.zero_add records.length
  · intro hfits
    obtain ⟨hread, hcount⟩ := readMap?_text h hfits
    refine ⟨hcount, hread, ?_⟩
    intro others capacity' w' h' hfits' htext
    obtain ⟨hread', -⟩ := readMap?_text h' hfits'
    rw [htext, hread] at hread'
    exact (Option.some.inj hread').symm

/-- Records without an index and with the first index, empty texts and a carriage return at the end
of a line. -/
def sampleRecords : List Record :=
  [⟨"A.java", 17, 18, .localVariable ⟨"A", ⟨"m", "()V"⟩, "x", none⟩⟩,
    ⟨"A.java", 17, 18, .parameter ⟨"A", ⟨"m", "()V"⟩, "x", some 0⟩⟩,
    ⟨"", 0, 0, .package ""⟩, ⟨"é.java", 3, 5, .method "A" "m" "()V\r"⟩]

/-- Four records are written on four lines and read back from them. -/
theorem written_text_determines_records_sample :
    ∃ w, MapWriter.accept.forward (.empty none) sampleRecords = (w, none) ∧
      w.written = 4 ∧ w.text.toList.count '\n' = 4 ∧ readMap? w.text = some sampleRecords := by
  obtain ⟨hnone, hwriter⟩ := written_text_determines_records sampleRecords
  have hfits : ∀ r ∈ sampleRecords, r.FitsLine := by decide
  obtain ⟨hwritten, hplain⟩ := hwriter none _ (Prod.ext rfl hnone)
  obtain ⟨hcount, hread, -⟩ := hplain hfits
  exact ⟨_, Prod.ext rfl hnone, hwritten, hcount, hread⟩

end SymbolRanges

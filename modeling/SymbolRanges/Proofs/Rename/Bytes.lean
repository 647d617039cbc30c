import Mathlib.Data.List.TakeWhile
import SymbolRanges.Proofs.Rename.Contents
import SymbolRanges.Proofs.Text.Utf8

/-!
# Rename tables from bytes and from texts

A source of bytes is read line by line, each with its line end (`Progress.addLines_eq`); a text is
cut into lines as a whole, and its line ends are dropped. Both give the same tables. A line feed is
a byte of no other character, so both cuts fall on the same places, and a line has the same words
with and without its line end: `ofBytes_encode`. A line that is no well-formed text is skipped, as a
blank line is, so it may be replaced by a blank: `ofBytes_mend`.
-/

set_option autoImplicit false

namespace SymbolRanges.Rename

open Text.Utf8 (encode decode?)

/-- What the bytes of a line do to tables. -/
def Tables.addBytes (t : Tables) (line : List UInt8) : Tables :=
  match decode? line with
  | some line => t.addLine line
  | none => t.skip

/-- The bytes of a line do to the tables what they do without a log. -/
theorem Progress.tables_addBytes (p : Progress) (line : List UInt8) :
    (p.addBytes line).tables = p.tables.addBytes line := by
  unfold Progress.addBytes Tables.addBytes
  cases decode? line <;> rfl

/-! ### Lines of a source -/

/-- The lines of a sequence of bytes, their line ends included. -/
def byteLines (bytes : List UInt8) : List (List UInt8) := Text.cutAfter (· == lineFeed) bytes

/-- The lines that are read from a source: a last line without a line end is read only if the source
does not fail behind it. -/
def ByteSource.lines {ε : Type} (source : ByteSource ε) : List (List UInt8) :=
  match source.failure? with
  | none => byteLines source.bytes
  | some _ => (byteLines source.bytes).filter fun line => line.getLast? == some lineFeed

section Reading

variable {ε : Type}

/-- Bytes in front of a line feed are a line with it. -/
theorem byteLines_append_cons {line : List UInt8} (h : lineFeed ∉ line) (rest : List UInt8) :
    byteLines (line ++ lineFeed :: rest) = (line ++ [lineFeed]) :: byteLines rest := by
  induction line with
  | nil => rfl
  | cons b line ih =>
    have hb : (b == lineFeed) = false := beq_eq_false_iff_ne.2 (List.ne_of_not_mem_cons h).symm
    have hrest : byteLines (line ++ lineFeed :: rest) = _ :=
      ih fun hmem => h (List.mem_cons_of_mem b hmem)
    rw [List.cons_append, byteLines, Text.cutAfter, hb, if_neg Bool.false_ne_true, ← byteLines,
      hrest]
    rfl

/-- Bytes without a line feed are one line, if there are any. -/
theorem byteLines_of_notMem {bytes : List UInt8} (h : lineFeed ∉ bytes) :
    byteLines bytes = if bytes = [] then [] else [bytes] := by
  induction bytes with
  | nil => rfl
  | cons b bytes ih =>
    have hb : (b == lineFeed) = false := beq_eq_false_iff_ne.2 (List.ne_of_not_mem_cons h).symm
    rw [byteLines, Text.cutAfter, hb, if_neg Bool.false_ne_true, ← byteLines,
      ih fun hmem => h (List.mem_cons_of_mem b hmem)]
    split
    · next hnil => simp [hnil, Text.consPiece]
    · simp [Text.consPiece]

namespace ByteSource

/-- A line with its line end is read from in front of the rest. -/
theorem readLine_append_cons {line : List UInt8} (h : lineFeed ∉ line) (rest : List UInt8)
    (failure? : Option ε) :
    (⟨line ++ lineFeed :: rest, failure?⟩ : ByteSource ε).readLine =
      .ok (line ++ [lineFeed], ⟨rest, failure?⟩) := by
  have hline : ∀ b ∈ line, (b != lineFeed) = true := fun b hb =>
    bne_iff_ne.2 (ne_of_mem_of_not_mem hb h)
  have htake : (line ++ lineFeed :: rest).takeWhile (· != lineFeed) = line := by
    rw [List.takeWhile_append_of_pos hline, List.takeWhile_cons_of_neg (by simp), List.append_nil]
  have hdrop : (line ++ lineFeed :: rest).dropWhile (· != lineFeed) = lineFeed :: rest := by
    rw [List.dropWhile_append_of_pos hline, List.dropWhile_cons_of_neg (by simp)]
  simp only [readLine, htake, hdrop]

/-- Without a line end ahead, everything left is read, unless the source fails. -/
theorem readLine_of_notMem {bytes : List UInt8} (h : lineFeed ∉ bytes) (failure? : Option ε) :
    (⟨bytes, failure?⟩ : ByteSource ε).readLine =
      match failure? with
      | none => .ok (bytes, ⟨[], none⟩)
      | some reason => .error reason := by
  have hall : ∀ b ∈ bytes, (b != lineFeed) = true := fun b hb =>
    bne_iff_ne.2 (ne_of_mem_of_not_mem hb h)
  have htake : bytes.takeWhile (· != lineFeed) = bytes := List.takeWhile_eq_self_iff.2 hall
  have hdrop : bytes.dropWhile (· != lineFeed) = [] := List.dropWhile_eq_nil_iff.2 hall
  cases failure? <;> simp only [readLine, htake, hdrop]

/-- A line with its line end is a line of the source, whether it fails or not. -/
theorem lines_append_cons {line : List UInt8} (h : lineFeed ∉ line) (rest : List UInt8)
    (failure? : Option ε) :
    (⟨line ++ lineFeed :: rest, failure?⟩ : ByteSource ε).lines =
      (line ++ [lineFeed]) :: (⟨rest, failure?⟩ : ByteSource ε).lines := by
  cases failure? with
  | none => exact byteLines_append_cons h rest
  | some reason =>
    simp only [lines]
    rw [byteLines_append_cons h rest, List.filter_cons_of_pos (by simp)]

/-- Bytes without a line end are a line of the source if there are any and it does not fail. -/
theorem lines_of_notMem {bytes : List UInt8} (h : lineFeed ∉ bytes) (failure? : Option ε) :
    (⟨bytes, failure?⟩ : ByteSource ε).lines =
      if bytes = [] ∨ failure?.isSome then [] else [bytes] := by
  cases failure? with
  | none => simpa [lines] using byteLines_of_notMem h
  | some reason =>
    have hlast : bytes.getLast? ≠ some lineFeed := fun heq => h (List.mem_of_getLast? heq)
    simp only [lines, byteLines_of_notMem h, Option.isSome_some, or_true, if_true]
    split
    · rfl
    · simp [hlast]

end ByteSource

/-- Nothing more is taken once a source has failed. -/
theorem Progress.addLines_of_error {p : Progress} {source : ByteSource ε} {reason : ε}
    (h : source.readLine = .error reason) : p.addLines source = (p, some reason) := by
  rw [addLines]
  split
  · next h' => rw [Except.error.inj (h.symm.trans h')]
  · next h' => cases h.symm.trans h'

/-- A line that was read is taken before the rest. -/
theorem Progress.addLines_of_ok {p : Progress} {source rest : ByteSource ε} {line : List UInt8}
    (h : source.readLine = .ok (line, rest)) :
    p.addLines source = if line = [] then (p, none) else (p.addBytes line).addLines rest := by
  rw [addLines]
  split
  · next h' => cases h.symm.trans h'
  · next h' =>
    cases h.symm.trans h'
    rfl

/-- Reading a source to its end takes its lines one after the other, and comes to its failure if
there is one. -/
theorem Progress.addLines_eq (p : Progress) (source : ByteSource ε) :
    p.addLines source = (source.lines.foldl addBytes p, source.failure?) := by
  obtain ⟨bytes, failure?⟩ := source
  induction hsize : bytes.length using Nat.strongRecOn generalizing bytes p with
  | ind size ih =>
    -- a line end ahead makes a line to read before the rest
    by_cases hmem : lineFeed ∈ bytes
    · obtain ⟨line, rest, rfl, hline⟩ := List.eq_append_cons_of_mem hmem
      have hshorter : rest.length < size := by
        rw [List.length_append, List.length_cons] at hsize
        omega
      rw [addLines_of_ok (ByteSource.readLine_append_cons hline rest failure?),
        if_neg (by simp), ih _ hshorter _ _ rfl, ByteSource.lines_append_cons hline,
        List.foldl_cons]
    · rw [ByteSource.lines_of_notMem hmem]
      cases failure? with
      | some reason =>
        rw [addLines_of_error (ByteSource.readLine_of_notMem hmem _)]
        simp
      | none =>
        rw [addLines_of_ok (ByteSource.readLine_of_notMem hmem _)]
        split
        · simp_all
        · -- what is left behind the last line is nothing
          next hne =>
          rw [addLines_of_ok (ByteSource.readLine_of_notMem List.not_mem_nil _), if_pos rfl]
          simp [hne]

end Reading

/-! ### Tables of bytes -/

/-- The tables of the lines of a sequence of bytes. -/
def ofBytes (bytes : List UInt8) : Tables := (byteLines bytes).foldl Tables.addBytes .empty

/-- What the lines of bytes do to tables does not depend on the log. -/
theorem Progress.tables_foldl_addBytes (lines : List (List UInt8)) :
    (lines.foldl addBytes start).tables = lines.foldl Tables.addBytes .empty :=
  (List.foldl_hom Progress.tables fun p line => (p.tables_addBytes line).symm).symm

/-- A source that does not fail yields the tables of its bytes. -/
theorem load_eq_ofBytes (bytes : List UInt8) :
    (ByteSource.load ⟨bytes, none⟩).result = .ok (ofBytes bytes) := by
  rw [ByteSource.load, loadLines, Progress.addLines_eq]
  exact congrArg Except.ok (Progress.tables_foldl_addBytes _)

/-- A source that fails yields its reason, wherever it fails. -/
theorem load_eq_failure (bytes : List UInt8) (reason : String) :
    (ByteSource.load ⟨bytes, some reason⟩).result = .error (.source reason) := by
  rw [ByteSource.load, loadLines, Progress.addLines_eq]
/-- The bytes of a line that is a text do what the line does. -/
theorem Tables.addBytes_encode (t : Tables) (line : String) :
    t.addBytes (encode line) = t.addLine line := by
  rw [Tables.addBytes, Text.Utf8.decode?_encode]

/-! ### Bytes of a text -/

/-- The line end of a line is no part of what it says. -/
theorem Tables.addLine_chomp (t : Tables) (line : List Char) :
    t.addLine (String.ofList (Text.chomp line)) = t.addLine (String.ofList line) := by
  have hwords : Text.words (String.ofList (Text.chomp line)) = Text.words (String.ofList line) := by
    simp only [Text.words, String.toList_ofList, Text.wordsOf_chomp]
  unfold Tables.addLine Renaming.ofLine
  rw [hwords]

/-- Texts with line feeds between them are written as their bytes with line feeds between them. -/
theorem encode_intercalate (texts : List String) :
    encode ("\n".intercalate texts) = [lineFeed].intercalate (texts.map encode) := by
  rw [encode, String.toList_intercalate, Text.flatMap_intercalate, List.map_map]
  rfl

/-- The bytes of a text without line feeds hold none. -/
theorem lineFeed_notMem_encode {text : String} (h : '\n' ∉ text.toList) :
    lineFeed ∉ encode text := by
  intro hmem
  obtain ⟨c, hc, hbyte⟩ := List.mem_flatMap.1 hmem
  rw [Text.Utf8.eq_of_lineFeed_mem hbyte] at hc
  exact h hc

/-- The bytes of a text are cut where the text is. -/
theorem pieces_encode (text : String) :
    Text.pieces (· == lineFeed) (encode text) =
      (Text.pieces (· == '\n') text.toList).map fun piece => encode (String.ofList piece) := by
  have hjoin :
      text = "\n".intercalate ((Text.pieces (· == '\n') text.toList).map String.ofList) := by
    rw [← String.toList_inj, String.toList_intercalate, List.map_map, String.toList_comp_ofList,
      List.map_id]
    exact (Text.intercalate_pieces '\n' text.toList).symm
  have hbytes : encode text = [lineFeed].intercalate
      ((Text.pieces (· == '\n') text.toList).map fun piece => encode (String.ofList piece)) := by
    conv => lhs; rw [hjoin]
    rw [encode_intercalate, List.map_map]
    rfl
  rw [hbytes]
  refine Text.pieces_intercalate lineFeed (by simp) ?_
  intro bytes hmem
  obtain ⟨piece, hpiece, rfl⟩ := List.mem_map.1 hmem
  refine lineFeed_notMem_encode ?_
  rw [String.toList_ofList]
  exact Text.notMem_of_mem_pieces '\n' hpiece

/-- Only the empty text has no bytes. -/
theorem isEmpty_encode_ofList (piece : List Char) :
    (encode (String.ofList piece)).isEmpty = piece.isEmpty := by
  rw [Bool.eq_iff_iff, List.isEmpty_iff, List.isEmpty_iff, ← List.length_eq_zero_iff,
    Text.Utf8.length_encode, String.utf8ByteSize_eq_zero_iff]
  simp

/-- The bytes of a text give the tables of the text. -/
theorem ofBytes_encode (text : String) : ofBytes (encode text) = ofText text := by
  have hend (piece : List Char) :
      encode (String.ofList (piece ++ ['\n'])) = encode (String.ofList piece) ++ [lineFeed] := by
    rw [String.ofList_append, Text.Utf8.encode_append]
    rfl
  have hline (t : Tables) (line : List Char) :
      t.addBytes (encode (String.ofList line)) = t.addLine (String.ofList (Text.chomp line)) := by
    rw [Tables.addLine_chomp, Tables.addBytes_encode]
  -- both cuts are the same pieces with their ends, so each line does to the tables what it did
  rw [ofBytes, byteLines, Text.cutAfter_eq_withEnds, pieces_encode,
    Text.map_withEnds isEmpty_encode_ofList hend, ← Text.cutAfter_eq_withEnds, List.foldl_map,
    ofText_eq, Text.lines, List.foldl_map]
  simp only [hline]

/-! ### Bytes that are no text -/

/-- The content of a line, or a blank if it is no well-formed text. -/
def mendLine (content : List UInt8) : List UInt8 :=
  if (decode? content).isSome then content else encode " "

/-- Bytes with a blank for the content of every line that is no well-formed text. -/
def mend (bytes : List UInt8) : List UInt8 :=
  [lineFeed].intercalate ((Text.pieces (· == lineFeed) bytes).map mendLine)

/-- Mended bytes are those of a text. -/
theorem exists_encode_eq_mend (bytes : List UInt8) : ∃ text, encode text = mend bytes := by
  have hline (content : List UInt8) : ∃ text, encode text = mendLine content := by
    unfold mendLine
    split
    · next h =>
      obtain ⟨text, htext⟩ := Option.isSome_iff_exists.1 h
      exact ⟨text, (Text.Utf8.decode?_eq_some_iff.1 htext).symm⟩
    · exact ⟨" ", rfl⟩
  choose text htext using hline
  refine ⟨"\n".intercalate ((Text.pieces (· == lineFeed) bytes).map text), ?_⟩
  rw [encode_intercalate, List.map_map, mend]
  congr 1
  exact List.map_congr_left fun content _ => htext content

/-- A blank line is skipped, so a mended line does to tables what the line itself does. -/
theorem Tables.addBytes_mendLine (t : Tables) (content : List UInt8) :
    t.addBytes (mendLine content) = t.addBytes content ∧
    t.addBytes (mendLine content ++ [lineFeed]) = t.addBytes (content ++ [lineFeed]) := by
  unfold mendLine
  cases h : decode? content with
  | some text => exact ⟨rfl, rfl⟩
  | none =>
    have hblank (text : String) (hwords : Text.words text = []) :
        t.addBytes (encode text) = t.skip := by
      rw [Tables.addBytes_encode, Tables.addLine, Renaming.ofLine, hwords]
      rfl
    have hskip {line : List UInt8} (hline : decode? line = none) : t.addBytes line = t.skip := by
      rw [Tables.addBytes, hline]
    -- the line feed behind bytes that are no text does not make them one
    have hend : decode? (content ++ [lineFeed]) = none := by
      rw [lineFeed, Text.Utf8.decode?_concat_lineFeed, h, Option.map_none]
    rw [hskip h, hskip hend]
    exact ⟨hblank " " (by decide), hblank " \n" (by decide)⟩

/-- No content at all is well-formed, so it is no blank that stands for it. -/
theorem isEmpty_mendLine (content : List UInt8) : (mendLine content).isEmpty = content.isEmpty := by
  cases content with
  | nil =>
    have hdecode : decode? [] = some "" := Text.Utf8.decode?_encode ""
    rw [mendLine, hdecode, Option.isSome_some, if_pos rfl]
  | cons b rest =>
    unfold mendLine
    split <;> rfl

/-- A mended line holds a line feed only if the line does. -/
theorem lineFeed_notMem_mendLine {content : List UInt8} (h : lineFeed ∉ content) :
    lineFeed ∉ mendLine content := by
  unfold mendLine
  split
  · exact h
  · decide

/-- Mended bytes give the same tables. -/
theorem ofBytes_mend (bytes : List UInt8) : ofBytes (mend bytes) = ofBytes bytes := by
  have hpieces : Text.pieces (· == lineFeed) (mend bytes) =
      (Text.pieces (· == lineFeed) bytes).map mendLine := by
    refine Text.pieces_intercalate lineFeed (by simp) ?_
    intro content hmem
    obtain ⟨piece, hpiece, rfl⟩ := List.mem_map.1 hmem
    exact lineFeed_notMem_mendLine (Text.notMem_of_mem_pieces lineFeed hpiece)
  rw [ofBytes, ofBytes, byteLines, byteLines, Text.cutAfter_eq_withEnds,
    Text.cutAfter_eq_withEnds, hpieces]
  exact Text.foldl_withEnds_map isEmpty_mendLine (fun t p => (t.addBytes_mendLine p).2)
    (fun t p => (t.addBytes_mendLine p).1) _ _

/-- A source that does not fail yields the tables of a text, namely of its bytes with a blank for
the content of every line that is no well-formed text; the bytes of a text yield the tables of this
text. A source that fails yields its reason and no tables, whatever it gave before. -/
theorem load_agrees_with_text (bytes : List UInt8) :
    (∃ text, encode text = mend bytes ∧
      (ByteSource.load ⟨bytes, none⟩).result = .ok (ofText text)) ∧
    (∀ text, (ByteSource.load ⟨encode text, none⟩).result = .ok (ofText text)) ∧
    ∀ reason, (ByteSource.load ⟨bytes, some reason⟩).result = .error (.source reason) := by
  refine ⟨?_, ?_, load_eq_failure bytes⟩
  · obtain ⟨text, htext⟩ := exists_encode_eq_mend bytes
    refine ⟨text, htext, ?_⟩
    rw [load_eq_ofBytes, ← ofBytes_mend, ← htext, ofBytes_encode]
  · intro text
    rw [load_eq_ofBytes, ofBytes_encode]

end SymbolRanges.Rename

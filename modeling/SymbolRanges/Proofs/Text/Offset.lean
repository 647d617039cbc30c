import Mathlib.Algebra.Ring.Nat
import Mathlib.Data.List.TakeWhile
import SymbolRanges.Text.Offset
import SymbolRanges.Text.Utf8

/-!
# Offsets count the units before a position

A text takes as many units as it has characters, UTF-16 code units or bytes (`Encoding.units`),
which is what the widths of its characters add up to (`Encoding.units_eq_sum_width`). The conversion
keeps, for the characters that are narrower in units than in bytes, how many bytes are saved up to
the end of each. These entries are in the order of the text, and no entry saves more bytes than
there are before its position (`OffsetMap.pairwise_savingsFrom`,
`OffsetMap.bounds_of_mem_savingsFrom`). The last entry at or before a position says what all
characters that end there or before save together (`OffsetMap.lastSaved_savingsFrom`).

`OffsetMap.offset_counts_units` is the result: the offset of a position between two characters is
the number of units before it, and it is said what the offset is inside of a character and behind
the text.
-/

set_option autoImplicit false

namespace SymbolRanges

/-! ### The units of a text -/

namespace Text.Utf16

/-- The code units of a character: itself in the basic plane, and else a high surrogate for the
upper ten bits behind the basic plane and a low surrogate for the lower ten. -/
def encodeChar (c : Char) : List UInt16 :=
  if c.toNat < 0x10000 then [c.toNat.toUInt16]
  else
    [(0xD800 + (c.toNat - 0x10000) / 0x400).toUInt16,
      (0xDC00 + (c.toNat - 0x10000) % 0x400).toUInt16]

/-- The UTF-16 code units of a text. -/
def encode (text : String) : List UInt16 := text.toList.flatMap encodeChar

end Text.Utf16

namespace Encoding

/-- How many units a text takes: the number of its characters, of its UTF-16 code units or of the
bytes of its UTF-8 form. -/
def units : Encoding → String → Nat
  | .char, text => text.length
  | .utf16, text => (Text.Utf16.encode text).length
  | .utf8, text => (Text.Utf8.encode text).length

/-- The UTF-16 width of a character is the number of its code units. -/
theorem width_utf16 (c : Char) : width .utf16 c = (Text.Utf16.encodeChar c).length := by
  show (if c.toNat < 0x10000 then 1 else 2) = _
  unfold Text.Utf16.encodeChar
  split <;> rfl

/-- A text takes as many units as its characters are wide together. -/
theorem units_eq_sum_width (encoding : Encoding) (text : String) :
    encoding.units text = (text.toList.map encoding.width).sum := by
  cases encoding with
  | char =>
    have hwidth : width .char = fun _ => 1 := rfl
    simp [units, hwidth, List.map_const', String.length_toList]
  | utf16 =>
    have hwidth : width .utf16 = fun c => (Text.Utf16.encodeChar c).length := funext width_utf16
    rw [units, Text.Utf16.encode, List.length_flatMap, hwidth]
  | utf8 =>
    have hwidth : width .utf8 = fun c => (String.utf8EncodeChar c).length := by
      funext c
      simp [width]
    rw [units, Text.Utf8.encode, List.length_flatMap, hwidth]

end Encoding

/-- How many bytes more than units characters take. -/
def Encoding.spared (encoding : Encoding) (cs : List Char) : Nat :=
  (cs.map fun c => c.utf8Size - encoding.width c).sum

/-- What characters spare makes up for the units that they take. -/
theorem Encoding.spared_add_sum_width (encoding : Encoding) (cs : List Char) :
    encoding.spared cs + (cs.map encoding.width).sum = (cs.map Char.utf8Size).sum := by
  induction cs with
  | nil => rfl
  | cons c rest ih =>
    have hwidth := encoding.width_le_utf8Size c
    unfold spared at ih ⊢
    simp only [List.map_cons, List.sum_cons]
    omega

/-- The bytes of a text are those of its characters. -/
theorem sum_utf8Size_toList (text : String) :
    (text.toList.map Char.utf8Size).sum = text.utf8ByteSize := by
  rw [← Text.Utf8.length_encode, Text.Utf8.encode, List.length_flatMap]
  simp

namespace OffsetMap

/-! ### The entries of a text -/

/-- Every entry stands behind the start of the characters and not behind their end, and between the
start and the entry no more is saved than there are bytes. -/
theorem bounds_of_mem_savingsFrom {encoding : Encoding} {start saved : Nat} {cs : List Char}
    {entry : Nat × Nat} (h : entry ∈ savingsFrom encoding start saved cs) :
    start < entry.1 ∧ entry.1 ≤ start + (cs.map Char.utf8Size).sum ∧
      entry.2 + start ≤ entry.1 + saved := by
  induction cs generalizing start saved with
  | nil => cases h
  | cons c rest ih =>
    have hpos := c.utf8Size_pos
    rw [savingsFrom] at h
    rw [List.map_cons, List.sum_cons]
    split at h
    · have hrest := ih h
      omega
    · rcases List.mem_cons.1 h with rfl | hmem
      · dsimp only
        omega
      · have hrest := ih hmem
        omega

/-- The entries are in the order of their positions, and no two have the same. -/
theorem pairwise_savingsFrom (encoding : Encoding) (start saved : Nat) (cs : List Char) :
    (savingsFrom encoding start saved cs).Pairwise fun entry later => entry.1 < later.1 := by
  induction cs generalizing start saved with
  | nil => exact List.Pairwise.nil
  | cons c rest ih =>
    rw [savingsFrom]
    split
    · exact ih _ _
    · exact List.pairwise_cons.2 ⟨fun later hlater => (bounds_of_mem_savingsFrom hlater).1, ih _ _⟩

/-! ### The last entry at or before a position -/

/-- The first entry counts if it is not behind the byte, and then the others are looked at. -/
theorem lastSaved_cons (byte : Nat) (entry : Nat × Nat) (rest : List (Nat × Nat))
    (otherwise : Nat) :
    lastSaved byte (entry :: rest) otherwise =
      if entry.1 ≤ byte then lastSaved byte rest entry.2 else otherwise := by
  unfold lastSaved
  by_cases hreached : entry.1 ≤ byte
  · rw [List.takeWhile_cons, if_pos (decide_eq_true hreached), List.getLast?_cons, if_pos hreached]
    cases (rest.takeWhile fun entry => decide (entry.1 ≤ byte)).getLast? with
    | none => rfl
    | some last => rfl
  · rw [List.takeWhile_cons, if_neg (by simpa using hreached), if_neg hreached]
    rfl

/-- Entries that all stand behind a position say nothing about it. -/
theorem lastSaved_of_lt {byte : Nat} {entries : List (Nat × Nat)} (otherwise : Nat)
    (h : ∀ entry ∈ entries, byte < entry.1) : lastSaved byte entries otherwise = otherwise := by
  cases entries with
  | nil => rfl
  | cons entry rest =>
    have hentry := h entry List.mem_cons_self
    rw [lastSaved_cons, if_neg (Nat.not_le.2 hentry)]

/-- What is saved at a position is said by an entry at or before it, unless there is none. -/
theorem lastSaved_eq_or_mem (byte : Nat) (entries : List (Nat × Nat)) (otherwise : Nat) :
    lastSaved byte entries otherwise = otherwise ∨
      ∃ entry ∈ entries, entry.1 ≤ byte ∧ lastSaved byte entries otherwise = entry.2 := by
  unfold lastSaved
  split
  · next entry hlast =>
    have hmem := List.mem_of_getLast? hlast
    have hreached := List.mem_takeWhile_imp hmem
    exact .inr ⟨entry, (List.takeWhile_prefix _).subset hmem, of_decide_eq_true hreached, rfl⟩
  · exact .inl rfl

/-- At a position behind some characters and before the end of the next, these characters and no
others have saved what they spare. -/
theorem lastSaved_savingsFrom {encoding : Encoding} {start saved byte : Nat} {xs ys : List Char}
    (hreached : start + (xs.map Char.utf8Size).sum ≤ byte)
    (hnext : ∀ c ∈ ys.head?, byte < start + (xs.map Char.utf8Size).sum + c.utf8Size) :
    lastSaved byte (savingsFrom encoding start saved (xs ++ ys)) saved =
      saved + encoding.spared xs := by
  induction xs generalizing start saved with
  | nil =>
    -- every entry of the other characters stands behind the end of the first of them
    refine lastSaved_of_lt saved fun entry hentry => ?_
    rw [List.nil_append] at hentry
    cases ys with
    | nil => cases hentry
    | cons c rest =>
      have hlt : byte < start + c.utf8Size := by simpa using hnext c rfl
      rw [savingsFrom] at hentry
      split at hentry
      · exact Nat.lt_trans hlt (bounds_of_mem_savingsFrom hentry).1
      · rcases List.mem_cons.1 hentry with rfl | hmem
        · exact hlt
        · exact Nat.lt_trans hlt (bounds_of_mem_savingsFrom hmem).1
  | cons c rest ih =>
    rw [List.map_cons, List.sum_cons, ← Nat.add_assoc] at hreached hnext
    have hspared : encoding.spared (c :: rest) =
        (c.utf8Size - encoding.width c) + encoding.spared rest := by
      simp [Encoding.spared]
    rw [List.cons_append, savingsFrom, hspared]
    split
    · next hwidth =>
      rw [ih hreached hnext, hwidth]
      omega
    · rw [lastSaved_cons, if_pos (by dsimp only; omega), ih hreached hnext]
      omega

/-! ### Offsets -/

/-- No more is saved at a position than there are bytes before it. -/
theorem saved_le (text : String) (encoding : Encoding) (byte : Nat) :
    (ofText text encoding).saved byte ≤ byte := by
  unfold saved
  rcases lastSaved_eq_or_mem byte (ofText text encoding).savings 0 with hnone | hentry
  · rw [hnone]
    exact Nat.zero_le byte
  · obtain ⟨entry, hmem, hle, hsaved⟩ := hentry
    have hbound := (bounds_of_mem_savingsFrom hmem).2.2
    omega

/-- At a position behind the first characters of a text and before the end of the next, the offset
and what these characters spare make up the position. -/
theorem offset_add_spared {text : String} {xs ys : List Char} (encoding : Encoding) {byte : Nat}
    (htext : text.toList = xs ++ ys) (hreached : (xs.map Char.utf8Size).sum ≤ byte)
    (hnext : ∀ c ∈ ys.head?, byte < (xs.map Char.utf8Size).sum + c.utf8Size) :
    (ofText text encoding).offset byte + encoding.spared xs = byte := by
  have hsaved : (ofText text encoding).saved byte = encoding.spared xs := by
    have hlast : lastSaved byte (savingsFrom encoding 0 0 (xs ++ ys)) 0 =
        0 + encoding.spared xs :=
      lastSaved_savingsFrom (by omega) (by simpa using hnext)
    rw [← htext, Nat.zero_add] at hlast
    exact hlast
  have hle := saved_le text encoding byte
  unfold offset
  omega

/-- The offset of a position between two characters is the number of units before it. -/
theorem offset_ofText_append (before after : String) (encoding : Encoding) :
    (ofText (before ++ after) encoding).offset before.utf8ByteSize = encoding.units before := by
  have hsize := sum_utf8Size_toList before
  have hspared := encoding.spared_add_sum_width before.toList
  have hnext : ∀ c ∈ after.toList.head?,
      before.utf8ByteSize < (before.toList.map Char.utf8Size).sum + c.utf8Size := by
    intro c _
    have hpos := c.utf8Size_pos
    omega
  have hoffset := offset_add_spared encoding String.toList_append (Nat.le_of_eq hsize) hnext
  rw [encoding.units_eq_sum_width]
  omega

/-- The offset of a position between two characters of a text is the number of units before it: of
characters, of UTF-16 code units or of bytes. At a position inside of a character it is as much more
than at the start of the character as there are bytes between, and behind the text it falls short of
the position by the bytes that the text has more than units.

The entries that a position is looked up in are in order, so that those at or before the position
come first. What an entry says to be saved is not more than its position, which is not behind the
text, so that texts of less than 2³² bytes need no larger numbers. No character takes more units
than bytes, and at no position more is saved than there are bytes before it: nothing is subtracted
from less. -/
theorem offset_counts_units (text : String) (encoding : Encoding) :
    let index := ofText text encoding
    (∀ before after : String, text = before ++ after →
      index.offset before.utf8ByteSize = encoding.units before) ∧
    (∀ (before : String) (c : Char) (after : String) (byte : Nat),
      text = before ++ String.singleton c ++ after → before.utf8ByteSize < byte →
      byte < before.utf8ByteSize + c.utf8Size →
      index.offset byte = index.offset before.utf8ByteSize + (byte - before.utf8ByteSize)) ∧
    (∀ byte, text.utf8ByteSize < byte →
      index.offset byte + text.utf8ByteSize = byte + encoding.units text) ∧
    (index.savings.Pairwise fun entry later => entry.1 < later.1) ∧
    (∀ entry ∈ index.savings, entry.2 ≤ entry.1 ∧ entry.1 ≤ text.utf8ByteSize) ∧
    (∀ c, encoding.width c = encoding.units (String.singleton c) ∧
      encoding.width c ≤ c.utf8Size) ∧
    ∀ byte, index.saved byte ≤ byte := by
  intro index
  refine ⟨?_, ?_, ?_, pairwise_savingsFrom encoding 0 0 text.toList, ?_, ?_,
    saved_le text encoding⟩
  · rintro before after rfl
    exact offset_ofText_append before after encoding
  · intro before c after byte htext hstart hstop
    have hsize := sum_utf8Size_toList before
    have hlist : text.toList = before.toList ++ c :: after.toList := by
      rw [htext, String.toList_append, String.toList_append, String.toList_singleton,
        List.append_assoc, List.singleton_append]
    have hnext {position : Nat} (h : position < before.utf8ByteSize + c.utf8Size) :
        ∀ d ∈ (c :: after.toList).head?,
          position < (before.toList.map Char.utf8Size).sum + d.utf8Size := by
      rintro d ⟨⟩
      omega
    -- the same characters are spared at both positions
    have hinside := offset_add_spared encoding hlist (by omega) (hnext hstop)
    have hfirst := offset_add_spared encoding hlist (Nat.le_of_eq hsize)
      (hnext (Nat.lt_trans hstart hstop))
    show (ofText text encoding).offset byte = (ofText text encoding).offset _ + _
    omega
  · intro byte hbyte
    have hsize := sum_utf8Size_toList text
    have hspared := encoding.spared_add_sum_width text.toList
    -- behind the text every character has been spared what it can be
    have hbehind : (ofText text encoding).offset byte + encoding.spared text.toList = byte :=
      offset_add_spared encoding (List.append_nil _).symm (by omega) (by simp)
    rw [encoding.units_eq_sum_width]
    show (ofText text encoding).offset byte + _ = _
    omega
  · intro entry hentry
    have hbounds := bounds_of_mem_savingsFrom hentry
    rw [sum_utf8Size_toList] at hbounds
    omega
  · intro c
    refine ⟨?_, encoding.width_le_utf8Size c⟩
    simp [encoding.units_eq_sum_width]

/-- Before the `b` of `é😀b` stand two characters, which take three UTF-16 units and six bytes. The
second byte of the emoji is one behind its first, and a byte behind the text is as much short of its
position as the text has fewer units than bytes. -/
theorem offset_counts_units_wide :
    ((ofText "é😀b" .char).offset 6 = 2 ∧ (ofText "é😀b" .char).offset 9 + 7 = 12) ∧
    ((ofText "é😀b" .utf16).offset 6 = 3 ∧
      (ofText "é😀b" .utf16).offset 3 = (ofText "é😀b" .utf16).offset 2 + 1) ∧
    (ofText "é😀b" .utf8).offset 6 = 6 := by
  obtain ⟨hchars, -, hbehind, -⟩ := offset_counts_units "é😀b" .char
  obtain ⟨hunits, hinside, -⟩ := offset_counts_units "é😀b" .utf16
  obtain ⟨hbytes, -⟩ := offset_counts_units "é😀b" .utf8
  refine ⟨⟨?_, ?_⟩, ⟨?_, ?_⟩, ?_⟩
  · exact (hchars "é😀" "b" (by decide)).trans (by decide)
  · exact hbehind 9 (by decide)
  · exact (hunits "é😀" "b" (by decide)).trans (by decide)
  · exact hinside "é" '😀' "b" 3 (by decide) (by decide) (by decide)
  · exact (hbytes "é😀" "b" (by decide)).trans (by decide)

end OffsetMap

end SymbolRanges

import SymbolRanges.Text.Span

/-!
# Offsets in a unit of choice

Positions in a tree count bytes. A range map counts characters, UTF-16 units or bytes, so each
position is converted on its way out. The conversion keeps only the characters whose width in
bytes differs from their width in the chosen unit, each with what is saved up to its end, so that a
position is converted by one look-up.
-/

set_option autoImplicit false

namespace SymbolRanges

/-- The unit in which offsets are counted. -/
inductive Encoding where
  /-- Unicode scalar values. -/
  | char
  /-- UTF-16 code units. -/
  | utf16
  /-- Bytes of the UTF-8 form. -/
  | utf8
  deriving DecidableEq, Repr

/-- How many units a character takes. -/
def Encoding.width : Encoding → Char → Nat
  | .char, _ => 1
  | .utf16, c => if c.toNat < 0x10000 then 1 else 2
  | .utf8, c => c.utf8Size

/-- No unit is smaller than a byte, so no character is wider in units than in bytes. -/
theorem Encoding.width_le_utf8Size (encoding : Encoding) (c : Char) :
    encoding.width c ≤ c.utf8Size := by
  have h1 := c.utf8Size_pos
  have h2 : ¬ c.toNat < 0x10000 → 2 ≤ c.utf8Size := by
    intro h
    have hv : c.val.toNat = c.toNat := rfl
    simp only [Char.utf8Size, UInt32.le_iff_toNat_le]
    split
    · simp_all; omega
    · split
      · simp
      · split <;> simp
  cases encoding <;> simp only [width]
  · omega
  · split
    · omega
    · exact h2 (by assumption)
  · omega

/-- The conversion of byte positions of one text. -/
structure OffsetMap where
  /-- The unit that positions are converted to. -/
  encoding : Encoding
  /-- For each character narrower in units than in bytes, the byte position right after it and
  the bytes saved up to there, in the order of the text. -/
  savings : List (Nat × Nat)
  deriving DecidableEq

namespace OffsetMap

/-- The savings of characters that start at a byte position, when a number of bytes is saved
before them. -/
def savingsFrom (encoding : Encoding) : Nat → Nat → List Char → List (Nat × Nat)
  | _, _, [] => []
  | start, saved, c :: rest =>
    let stop := start + c.utf8Size
    if encoding.width c = c.utf8Size then savingsFrom encoding stop saved rest
    else
      let saved := saved + (c.utf8Size - encoding.width c)
      (stop, saved) :: savingsFrom encoding stop saved rest

/-- The conversion for a text. -/
def ofText (text : String) (encoding : Encoding) : OffsetMap :=
  ⟨encoding, savingsFrom encoding 0 0 text.toList⟩

/-- What the last of the leading entries at or before a byte position says to be saved, or a given
number if there is none. -/
def lastSaved (byte : Nat) (entries : List (Nat × Nat)) (otherwise : Nat) : Nat :=
  match (entries.takeWhile fun entry => decide (entry.1 ≤ byte)).getLast? with
  | some entry => entry.2
  | none => otherwise

/-- The bytes saved by the characters that end at or before a byte position. -/
def saved (index : OffsetMap) (byte : Nat) : Nat := lastSaved byte index.savings 0

/-- The offset of a byte position. -/
def offset (index : OffsetMap) (byte : Nat) : Nat :=
  byte - index.saved byte

/-- The offsets of the two ends of a span. -/
def range (index : OffsetMap) (span : Span) : Nat × Nat :=
  (index.offset span.start, index.offset span.stop)

/-- In bytes nothing is saved. -/
@[simp] theorem savingsFrom_utf8 (start saved : Nat) (cs : List Char) :
    savingsFrom .utf8 start saved cs = [] := by
  induction cs generalizing start with
  | nil => rfl
  | cons c rest ih => simp [savingsFrom, Encoding.width, ih]

/-- In bytes every position is its own offset. -/
@[simp] theorem offset_ofText_utf8 (text : String) (byte : Nat) :
    (ofText text .utf8).offset byte = byte := by
  simp [offset, saved, ofText, lastSaved]

end OffsetMap

end SymbolRanges

import SymbolRanges.Proofs.Text.Offset
import SymbolRanges.Text.Word

/-!
# Offsets in words

Offsets are computed in words, where some sums and differences have no value (`Word.add?`,
`Word.sub?`), and a conversion that comes to one of them has none either. `ofText?_eq_some` and
`offset?_ofText` say that this does not happen: for a text that fits in a word, every entry and
every offset has the value that it has without bounds.
-/

set_option autoImplicit false

namespace SymbolRanges

namespace OffsetMap

/-- The savings of characters, in words. Only the characters that save something are computed with,
and the position of such a character is cut to a word before its width is added. -/
def savingsFrom? (encoding : Encoding) : Nat → Nat → List Char → Option (List (Nat × Nat))
  | _, _, [] => some []
  | start, saved, c :: rest =>
    if encoding.width c = c.utf8Size then
      savingsFrom? encoding (start + c.utf8Size) saved rest
    else do
      let spared ← Word.sub? c.utf8Size (encoding.width c)
      let saved ← Word.add? saved spared
      let stop ← Word.add? (start % Word.limit) c.utf8Size
      let entries ← savingsFrom? encoding (start + c.utf8Size) saved rest
      some ((stop, saved) :: entries)

/-- The conversion for a text, in words. -/
def ofText? (text : String) (encoding : Encoding) : Option OffsetMap :=
  (savingsFrom? encoding 0 0 text.toList).map (OffsetMap.mk encoding)

/-- The offset of a byte position, in words. -/
def offset? (index : OffsetMap) (byte : Nat) : Option Nat := Word.sub? byte (index.saved byte)

/-- As long as the characters end within a word and no more is saved than there are bytes before
them, the savings have their values. -/
theorem savingsFrom?_eq_some (encoding : Encoding) {start saved : Nat} {cs : List Char}
    (hsaved : saved ≤ start) (hfits : start + (cs.map Char.utf8Size).sum < Word.limit) :
    savingsFrom? encoding start saved cs = some (savingsFrom encoding start saved cs) := by
  induction cs generalizing start saved with
  | nil => rfl
  | cons c rest ih =>
    rw [List.map_cons, List.sum_cons] at hfits
    rw [savingsFrom?, savingsFrom]
    split
    · exact ih (by omega) (by omega)
    · have hwidth := encoding.width_le_utf8Size c
      have hstart : start % Word.limit = start := Nat.mod_eq_of_lt (by omega)
      have hsum : saved + (c.utf8Size - encoding.width c) < Word.limit := by omega
      have hstop : start + c.utf8Size < Word.limit := by omega
      have hrest : savingsFrom? encoding (start + c.utf8Size)
          (saved + (c.utf8Size - encoding.width c)) rest = some _ := ih (by omega) (by omega)
      rw [Word.sub?_eq_some hwidth, hstart]
      simp only [Option.bind_eq_bind, Option.bind_some, Word.add?_eq_some hsum,
        Word.add?_eq_some hstop, hrest]

/-- The conversion for a text that fits in a word has its value. -/
theorem ofText?_eq_some {text : String} (encoding : Encoding)
    (hfits : text.utf8ByteSize < Word.limit) :
    ofText? text encoding = some (ofText text encoding) := by
  have hsum : 0 + (text.toList.map Char.utf8Size).sum < Word.limit := by
    rw [sum_utf8Size_toList, Nat.zero_add]
    exact hfits
  rw [ofText?, savingsFrom?_eq_some encoding (Nat.le_refl 0) hsum]
  rfl

/-- Every position has an offset, also inside of a character and behind the text. -/
theorem offset?_ofText (text : String) (encoding : Encoding) (byte : Nat) :
    (ofText text encoding).offset? byte = some ((ofText text encoding).offset byte) :=
  Word.sub?_eq_some (saved_le text encoding byte)

end OffsetMap

end SymbolRanges

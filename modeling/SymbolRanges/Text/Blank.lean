import SymbolRanges.Text.Split

/-!
# Blank characters

The characters that separate words are those with the Unicode property `White_Space`. The words
of a text are its maximal runs without a blank.
-/

set_option autoImplicit false

namespace SymbolRanges.Text

/-- The characters with the Unicode property `White_Space`, as inclusive ranges of code points. -/
def blankRanges : List (Nat × Nat) :=
  [(0x09, 0x0D), (0x20, 0x20), (0x85, 0x85), (0xA0, 0xA0), (0x1680, 0x1680), (0x2000, 0x200A),
    (0x2028, 0x2029), (0x202F, 0x202F), (0x205F, 0x205F), (0x3000, 0x3000)]

/-- Whether a character is blank. -/
def isBlank (c : Char) : Bool :=
  blankRanges.any fun range => decide (range.1 ≤ c.toNat ∧ c.toNat ≤ range.2)

/-- The words of a sequence of characters: the runs between blanks that are not empty. -/
def wordsOf (text : List Char) : List (List Char) :=
  (pieces isBlank text).filter fun run => !run.isEmpty

/-- The words of a text: its maximal runs without a blank, in order. -/
def words (text : String) : List String :=
  (wordsOf text.toList).map String.ofList

/-- The text without the blanks at its end. -/
def trimEnd (text : String) : String :=
  String.ofList (text.toList.reverse.dropWhile isBlank).reverse

/-- There are twenty-five blank characters. -/
example : (blankRanges.map fun range => range.2 + 1 - range.1).sum = 25 := by decide

end SymbolRanges.Text

import SymbolRanges.Text.Split

/-!
# Lines

The lines of a text are what lies up to each line feed, without the line end; a carriage return
belongs to the line end only directly before a line feed.
-/

set_option autoImplicit false

namespace SymbolRanges.Text

/-- A line without its line end: a final line feed, and a carriage return directly before it. -/
def chomp (line : List Char) : List Char :=
  match line.reverse with
  | '\n' :: '\r' :: rest => rest.reverse
  | '\n' :: rest => rest.reverse
  | _ => line

/-- The lines of a text, without their line ends. -/
def lines (text : String) : List String :=
  (cutAfter (· == '\n') text.toList).map fun line => String.ofList (chomp line)

end SymbolRanges.Text

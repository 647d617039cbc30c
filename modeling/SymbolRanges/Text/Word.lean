/-!
# Words

Positions in a text are kept in words of 32 bits. A sum that does not fit in a word has no value,
and neither has a difference that falls below zero.
-/

set_option autoImplicit false

namespace SymbolRanges.Word

/-- The first number that does not fit in a word. -/
def limit : Nat := 4294967296

/-- The sum of two numbers, if it fits in a word. -/
def add? (a b : Nat) : Option Nat := if a + b < limit then some (a + b) else none

/-- The difference of two numbers, if it does not fall below zero. -/
def sub? (a b : Nat) : Option Nat := if b ≤ a then some (a - b) else none

/-- A sum that fits in a word has its value. -/
theorem add?_eq_some {a b : Nat} (h : a + b < limit) : add? a b = some (a + b) := if_pos h

/-- A difference that does not fall below zero has its value. -/
theorem sub?_eq_some {a b : Nat} (h : b ≤ a) : sub? a b = some (a - b) := if_pos h

end SymbolRanges.Word

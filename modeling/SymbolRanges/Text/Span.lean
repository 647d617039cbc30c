/-!
# Spans

A half-open range of byte positions of a text.
-/

set_option autoImplicit false

namespace SymbolRanges

/-- The byte positions from `start` up to, but not including, `stop`. -/
structure Span where
  start : Nat
  stop : Nat
  start_le_stop : start ≤ stop
  deriving DecidableEq

namespace Span

/-- The span between two bounds, if they are in order. -/
def ofBounds? (start stop : Nat) : Option Span :=
  if h : start ≤ stop then some ⟨start, stop, h⟩ else none

/-- The span of `size` bytes from `start` on. -/
def ofSize (start size : Nat) : Span :=
  ⟨start, start + size, Nat.le_add_right start size⟩

end Span

end SymbolRanges

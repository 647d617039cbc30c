import SymbolRanges.Region
import SymbolRanges.Table
import SymbolRanges.Text.Span

/-!
# Declaration indices

Ordinary and injected declarations draw their indices from two counters, so the indices of
ordinary code depend only on the ordinary declarations before it. An index is a 32-bit number,
and a counter that has reached the last one hands out no more: `assign?_eq_none_iff`.
-/

set_option autoImplicit false

namespace SymbolRanges

/-- The indices of the declarations made so far, by the span of the declaring identifier. -/
structure IndexTable where
  indices : Table Span Nat
  normalNext : Nat
  injectedNext : Nat

namespace IndexTable

/-- The value at which a counter stops handing out indices. -/
def counterLimit : Nat := 4294967295

/-- The table without declarations, whose injected indices start at a base. -/
def empty (injectedBase : Nat) : IndexTable := ⟨∅, 0, injectedBase⟩

/-- The next index of a region. -/
def next (t : IndexTable) : Region → Nat
  | .normal => t.normalNext
  | .injected => t.injectedNext

/-- The counters after one index of a region was handed out. -/
def advance (t : IndexTable) : Region → IndexTable
  | .normal => { t with normalNext := t.normalNext + 1 }
  | .injected => { t with injectedNext := t.injectedNext + 1 }

/-- Gives a declaration the next index of a region, unless the counter is used up. -/
def assign? (t : IndexTable) (declaration : Span) (region : Region) :
    Option (Nat × IndexTable) :=
  let index := t.next region
  if index < counterLimit then
    some (index, { t.advance region with indices := t.indices.insert declaration index })
  else none

/-- The index of a declaration, if it has one. -/
def find? (t : IndexTable) (declaration : Span) : Option Nat := t.indices.find? declaration

/-- The number of declarations with an index. -/
def size (t : IndexTable) : Nat := t.indices.size

/-- Whether no declaration has an index. -/
def isEmpty (t : IndexTable) : Bool := t.indices.isEmpty

/-- An index is refused exactly when the counter is used up. -/
theorem assign?_eq_none_iff (t : IndexTable) (declaration : Span) (region : Region) :
    t.assign? declaration region = none ↔ counterLimit ≤ t.next region := by
  simp [assign?]

end IndexTable

end SymbolRanges

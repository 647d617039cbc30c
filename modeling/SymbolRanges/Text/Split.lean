/-!
# Cutting a sequence at its separators

`pieces` drops the separators and keeps what lies between them; `cutAfter` keeps each separator
at the end of its piece, so that the pieces concatenate to the sequence.
-/

set_option autoImplicit false

namespace SymbolRanges.Text

variable {α : Type}

/-- Puts an element in front of the first piece. -/
def consPiece (a : α) : List (List α) → List (List α)
  | [] => [[a]]
  | p :: ps => (a :: p) :: ps

/-- What lies between the separators: one piece more than there are separators, empty pieces
included. -/
def pieces (isSeparator : α → Bool) : List α → List (List α)
  | [] => [[]]
  | a :: rest =>
    if isSeparator a then [] :: pieces isSeparator rest
    else consPiece a (pieces isSeparator rest)

/-- Cuts a sequence after every separator. Each piece but the last ends in a separator, and the
last piece is kept only when it is not empty. -/
def cutAfter (isSeparator : α → Bool) : List α → List (List α)
  | [] => []
  | a :: rest =>
    if isSeparator a then [a] :: cutAfter isSeparator rest
    else consPiece a (cutAfter isSeparator rest)

/-- An element in front of the first piece stands in front of all that the pieces hold. -/
@[simp] theorem flatten_consPiece (a : α) (ps : List (List α)) :
    (consPiece a ps).flatten = a :: ps.flatten := by
  cases ps <;> simp [consPiece]

/-- There is a piece once an element was put in front. -/
@[simp] theorem consPiece_ne_nil (a : α) (ps : List (List α)) : consPiece a ps ≠ [] := by
  cases ps <;> simp [consPiece]

/-- An element goes to the first piece, whatever pieces follow. -/
theorem consPiece_append (a : α) {ps : List (List α)} (h : ps ≠ [])
    (more : List (List α)) : consPiece a (ps ++ more) = consPiece a ps ++ more := by
  cases ps with
  | nil => exact absurd rfl h
  | cons p ps => rfl

/-- There is always a piece. -/
@[simp] theorem pieces_ne_nil (isSeparator : α → Bool) (xs : List α) :
    pieces isSeparator xs ≠ [] := by
  cases xs with
  | nil => simp [pieces]
  | cons a rest =>
    unfold pieces
    split
    · simp
    · simp

/-- A sequence without separators is its own only piece. -/
theorem pieces_eq_singleton {isSeparator : α → Bool} {xs : List α}
    (h : ∀ a ∈ xs, isSeparator a = false) : pieces isSeparator xs = [xs] := by
  induction xs with
  | nil => rfl
  | cons a rest ih =>
    have hrest := ih fun b hb => h b (List.mem_cons_of_mem _ hb)
    simp [pieces, h a List.mem_cons_self, hrest, consPiece]

/-- A separator parts the pieces before it from those after it. -/
theorem pieces_append_cons {isSeparator : α → Bool} {s : α} (hs : isSeparator s = true)
    (xs ys : List α) :
    pieces isSeparator (xs ++ s :: ys) = pieces isSeparator xs ++ pieces isSeparator ys := by
  induction xs with
  | nil => simp [pieces, hs]
  | cons a rest ih =>
    by_cases ha : isSeparator a = true
    · simp [pieces, ha, ih]
    · simp [pieces, ha, ih, consPiece_append]

/-- No piece holds a separator. -/
theorem not_isSeparator_of_mem_pieces {isSeparator : α → Bool} {xs piece : List α}
    (h : piece ∈ pieces isSeparator xs) : ∀ a ∈ piece, isSeparator a = false := by
  induction xs generalizing piece with
  | nil => simp_all [pieces]
  | cons b rest ih =>
    by_cases hb : isSeparator b = true
    · simp only [pieces, hb, if_true, List.mem_cons] at h
      rcases h with rfl | h
      · simp
      · exact ih h
    · obtain ⟨first, more, hsplit⟩ := List.exists_cons_of_ne_nil (pieces_ne_nil isSeparator rest)
      simp only [pieces, hb, hsplit, consPiece, Bool.false_eq_true, if_false, List.mem_cons] at h
      rcases h with rfl | h
      · intro a ha
        rcases List.mem_cons.1 ha with rfl | ha
        · simpa using hb
        · exact ih (by simp [hsplit]) a ha
      · exact ih (by simp [hsplit, h])

/-- The pieces of a cut concatenate to the sequence. -/
@[simp] theorem flatten_cutAfter (isSeparator : α → Bool) (xs : List α) :
    (cutAfter isSeparator xs).flatten = xs := by
  induction xs with
  | nil => rfl
  | cons a rest ih =>
    by_cases h : isSeparator a = true <;> simp [cutAfter, h, ih]

end SymbolRanges.Text

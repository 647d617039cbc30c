import Mathlib.Data.List.Basic
import SymbolRanges.Text.Blank
import SymbolRanges.Text.Line

/-!
# Cutting and joining

Where all separators are the same element, the pieces of a sequence are what the library's `splitOn`
gives, so joining the pieces with the separator gives the sequence back, and the other way round.
Cutting after a separator goes from piece to piece. The blanks around a word are no part of it, so a
line has the same words with and without its line end. Words with blanks between them and lines with
line feeds between them are read back: `words_intercalate` and `lines_intercalate`.
-/

set_option autoImplicit false

namespace SymbolRanges.Text

variable {α : Type}

/-- The pieces are those of the library's function for any separators. -/
theorem pieces_eq_splitOnP (isSeparator : α → Bool) (xs : List α) :
    pieces isSeparator xs = xs.splitOnP isSeparator := by
  induction xs with
  | nil => rfl
  | cons a rest ih =>
    rw [pieces, List.splitOnP_cons_eq_if_modifyHead, ih]
    split
    · rfl
    · cases h : rest.splitOnP isSeparator with
      | nil => exact absurd h (List.splitOnP_ne_nil isSeparator rest)
      | cons p ps => rfl

section Separator

variable [BEq α] (s : α)

/-- The pieces at one separator are those of the library's function. -/
theorem pieces_eq_splitOn (xs : List α) : pieces (· == s) xs = xs.splitOn s := by
  rw [pieces_eq_splitOnP, List.splitOn_eq_splitOnP]

variable [LawfulBEq α]

/-- Joining the pieces of a sequence gives the sequence. -/
theorem intercalate_pieces (xs : List α) : [s].intercalate (pieces (· == s) xs) = xs := by
  rw [pieces_eq_splitOn, List.intercalate_splitOn]

/-- Cutting what was joined gives the pieces, if none of them holds a separator. -/
theorem pieces_intercalate {ps : List (List α)} (hne : ps ≠ []) (h : ∀ p ∈ ps, s ∉ p) :
    pieces (· == s) ([s].intercalate ps) = ps := by
  rw [pieces_eq_splitOn, List.splitOn_intercalate s h hne]

/-- No piece holds the separator. -/
theorem notMem_of_mem_pieces {xs piece : List α} (h : piece ∈ pieces (· == s) xs) : s ∉ piece :=
  fun hs => by simpa using not_isSeparator_of_mem_pieces h s hs

/-- A sequence of pieces that each end in a separator is cut into them, and nothing is left. -/
theorem pieces_flatMap_concat {ps : List (List α)} (h : ∀ p ∈ ps, s ∉ p) :
    pieces (· == s) (ps.flatMap (· ++ [s])) = ps ++ [[]] := by
  induction ps with
  | nil => rfl
  | cons p rest ih =>
    obtain ⟨hp, hrest⟩ := List.forall_mem_cons.1 h
    have hpieces := ih hrest
    rw [pieces_eq_splitOn] at hpieces ⊢
    rw [List.flatMap_cons, List.append_assoc, List.singleton_append,
      List.splitOn_append_cons_self_of_not_mem hp, hpieces, List.cons_append]

/-- Pieces that each end in the separator hold as many separators as there are pieces. -/
theorem count_flatMap_concat {ps : List (List α)} (h : ∀ p ∈ ps, s ∉ p) :
    (ps.flatMap (· ++ [s])).count s = ps.length := by
  induction ps with
  | nil => rfl
  | cons p rest ih =>
    obtain ⟨hp, hrest⟩ := List.forall_mem_cons.1 h
    rw [List.flatMap_cons, List.count_append, List.count_append, List.count_eq_zero.2 hp, ih hrest,
      List.count_singleton_self, List.length_cons]
    omega

end Separator

/-- Joining commutes with replacing each element by a sequence. -/
theorem flatMap_intercalate {β : Type} (f : α → List β) (separator : List α) (ps : List (List α)) :
    (separator.intercalate ps).flatMap f =
      (separator.flatMap f).intercalate (ps.map fun p => p.flatMap f) := by
  induction ps with
  | nil => simp
  | cons p rest ih =>
    cases rest with
    | nil => simp
    | cons q more =>
      rw [List.map_cons] at ih
      simp only [List.intercalate_cons_cons, List.flatMap_append, List.map_cons, ih]

/-- Replacing each element of what was joined replaces it in the pieces and in the separator. -/
theorem map_intercalate {β : Type} (f : α → β) (s : α) (ps : List (List α)) :
    ([s].intercalate ps).map f = [f s].intercalate (ps.map (List.map f)) := by
  have h := flatMap_intercalate (fun a => [f a]) [s] ps
  simpa only [← List.map_eq_flatMap, List.map_singleton] using h

/-- An element of joined pieces is one of the separator or of a piece. -/
theorem mem_of_mem_intercalate {a : α} {separator : List α} {ps : List (List α)}
    (h : a ∈ separator.intercalate ps) : a ∈ separator ∨ ∃ p ∈ ps, a ∈ p := by
  induction ps with
  | nil => simp at h
  | cons p rest ih =>
    cases rest with
    | nil => exact .inr ⟨p, List.mem_cons_self, by simpa using h⟩
    | cons q more =>
      rw [List.intercalate_cons_cons, List.mem_append, List.mem_append] at h
      rcases h with (hp | hs) | hrest
      · exact .inr ⟨p, List.mem_cons_self, hp⟩
      · exact .inl hs
      · refine (ih hrest).imp_right ?_
        rintro ⟨piece, hpiece, ha⟩
        exact ⟨piece, List.mem_cons_of_mem p hpiece, ha⟩

/-! ### Cutting after each separator -/

/-- What pieces are when each keeps the separator after it. The last piece has none after it, and is
left out if it is empty. -/
def withEnds (s : α) : List (List α) → List (List α)
  | [] => []
  | [p] => if p.isEmpty then [] else [p]
  | p :: q :: rest => (p ++ [s]) :: withEnds s (q :: rest)

/-- Cutting after each separator gives the pieces with their separators. -/
theorem cutAfter_eq_withEnds [BEq α] [LawfulBEq α] (s : α) (xs : List α) :
    cutAfter (· == s) xs = withEnds s (pieces (· == s) xs) := by
  induction xs with
  | nil => rfl
  | cons a rest ih =>
    obtain ⟨p, ps, hps⟩ := List.exists_cons_of_ne_nil (pieces_ne_nil (· == s) rest)
    rw [hps] at ih
    by_cases ha : a = s
    · simp [cutAfter, pieces, ha, hps, withEnds, ih]
    · have hpieces : pieces (· == s) (a :: rest) = (a :: p) :: ps := by
        simp [pieces, ha, hps, consPiece]
      rw [hpieces, cutAfter, if_neg (by simpa using ha), ih]
      cases ps with
      | nil => cases p <;> simp [withEnds, consPiece]
      | cons q more => simp [withEnds, consPiece]

/-- A map that keeps emptiness and takes one separator to another takes lines to lines. -/
theorem map_withEnds {β : Type} {s : α} {s' : β} {g : List α → List β}
    (hnil : ∀ p, (g p).isEmpty = p.isEmpty) (hend : ∀ p, g (p ++ [s]) = g p ++ [s'])
    (ps : List (List α)) : withEnds s' (ps.map g) = (withEnds s ps).map g := by
  fun_induction withEnds s ps with
  | case1 => rfl
  | case2 p hp => simp [withEnds, hnil, hp]
  | case3 p hp => simp [withEnds, hnil, hp]
  | case4 p q rest ih => simpa [withEnds, hend] using ih

/-- A fold over lines does not change when each piece is replaced by one that does the same to the
state, with and without its separator, and is empty when the piece is. -/
theorem foldl_withEnds_map {σ : Type} {step : σ → List α → σ} {s : α} {g : List α → List α}
    (hnil : ∀ p, (g p).isEmpty = p.isEmpty) (hend : ∀ t p, step t (g p ++ [s]) = step t (p ++ [s]))
    (hlast : ∀ t p, step t (g p) = step t p) (t : σ) (ps : List (List α)) :
    (withEnds s (ps.map g)).foldl step t = (withEnds s ps).foldl step t := by
  fun_induction withEnds s ps generalizing t with
  | case1 => rfl
  | case2 p hp => simp [withEnds, hnil, hp]
  | case3 p hp => simp [withEnds, hnil, hp, hlast]
  | case4 p q rest ih => simpa [withEnds, hend] using ih _

/-! ### Words -/

/-- A blank at the end adds no word. -/
theorem wordsOf_concat {c : Char} (h : isBlank c = true) (text : List Char) :
    wordsOf (text ++ [c]) = wordsOf text := by
  simp [wordsOf, pieces_append_cons h, pieces]

/-- A line has the same words without its line end. -/
theorem wordsOf_chomp (line : List Char) : wordsOf (chomp line) = wordsOf line := by
  have hfeed : isBlank '\n' = true := by decide
  have hreturn : isBlank '\r' = true := by decide
  unfold chomp
  split
  · next rest hline =>
    have hsplit : line = rest.reverse ++ ['\r'] ++ ['\n'] := by
      simpa using congrArg List.reverse hline
    rw [hsplit, wordsOf_concat hfeed, wordsOf_concat hreturn]
  · next rest _ hline =>
    have hsplit : line = rest.reverse ++ ['\n'] := by simpa using congrArg List.reverse hline
    rw [hsplit, wordsOf_concat hfeed]
  · rfl

/-- A text without blanks is a word. -/
def IsWord (text : String) : Prop := text ≠ "" ∧ ∀ c ∈ text.toList, isBlank c = false

instance : DecidablePred IsWord := fun text =>
  -- only the characters of the text are to be tried, not those of the whole type
  have := List.decidableBAll (fun c => isBlank c = false) text.toList
  inferInstanceAs (Decidable (text ≠ "" ∧ ∀ c ∈ text.toList, isBlank c = false))

/-- Words with blanks between them are read back. -/
theorem words_intercalate {ws : List String} (h : ∀ w ∈ ws, IsWord w) :
    words (" ".intercalate ws) = ws := by
  have hblank : isBlank ' ' = true := by decide
  unfold words wordsOf
  rw [String.toList_intercalate]
  induction ws with
  | nil => rfl
  | cons w rest ih =>
    obtain ⟨⟨hne, hplain⟩, hrest⟩ := List.forall_mem_cons.1 h
    have hne' : w.toList ≠ [] := fun hnil => hne (String.toList_eq_nil_iff.1 hnil)
    cases rest with
    | nil => simp [pieces_eq_singleton hplain, hne']
    | cons v more =>
      have hjoin : " ".toList.intercalate ((w :: v :: more).map String.toList) =
          w.toList ++ ' ' :: " ".toList.intercalate ((v :: more).map String.toList) := by
        simp [List.intercalate_cons_cons]
      rw [hjoin, pieces_append_cons hblank, pieces_eq_singleton hplain, List.filter_append,
        List.map_append, ih hrest]
      simp [hne']

/-! ### Lines -/

/-- A line that ends in no carriage return loses its line feed only. -/
theorem chomp_concat {line : List Char} (h : '\r' ∉ line) : chomp (line ++ ['\n']) = line := by
  unfold chomp
  rw [List.reverse_concat]
  split
  · next rest hrest =>
    have hreturn : '\r' ∈ line.reverse := by simp [(List.cons.inj hrest).2]
    exact absurd (List.mem_reverse.1 hreturn) h
  · next rest _ hrest => rw [← (List.cons.inj hrest).2, List.reverse_reverse]
  · next hother => exact absurd rfl (hother _)

/-- A line without a line feed has no line end to drop. -/
theorem chomp_of_notMem {line : List Char} (h : '\n' ∉ line) : chomp line = line := by
  have hfeed (rest : List Char) : line.reverse ≠ '\n' :: rest := by
    intro hrest
    have hmem : '\n' ∈ line.reverse := by simp [hrest]
    exact h (List.mem_reverse.1 hmem)
  unfold chomp
  split
  · next hrest => exact absurd hrest (hfeed _)
  · next hrest => exact absurd hrest (hfeed _)
  · rfl

/-- Lines with line feeds between them are read back, if the last is not empty. -/
theorem lines_intercalate {ls : List String} (hne : ∀ l ∈ ls, l ≠ "")
    (hfeed : ∀ l ∈ ls, '\n' ∉ l.toList) (hreturn : ∀ l ∈ ls, '\r' ∉ l.toList) :
    lines ("\n".intercalate ls) = ls := by
  -- by induction on the lines behind the first, each of which ends the one before
  have hends (l : String) (rest : List String) (hrest : ∀ m ∈ l :: rest, m ∈ ls) :
      (withEnds '\n' ((l :: rest).map String.toList)).map
        (fun line => String.ofList (chomp line)) = l :: rest := by
    induction rest generalizing l with
    | nil =>
      have hl := hrest l List.mem_cons_self
      have hnonempty : l.toList ≠ [] := fun hnil => hne l hl (String.toList_eq_nil_iff.1 hnil)
      simp [withEnds, hnonempty, chomp_of_notMem (hfeed l hl)]
    | cons m rest ih =>
      have hl := hrest l List.mem_cons_self
      have htail := ih m fun k hk => hrest k (List.mem_cons_of_mem l hk)
      rw [List.map_cons, List.map_cons, withEnds, List.map_cons, chomp_concat (hreturn l hl),
        String.ofList_toList]
      rw [List.map_cons] at htail
      rw [htail]
  cases ls with
  | nil => rfl
  | cons l rest =>
    have hpieces : pieces (· == '\n') ("\n".intercalate (l :: rest)).toList =
        (l :: rest).map String.toList := by
      rw [String.toList_intercalate]
      refine pieces_intercalate '\n' (by simp) ?_
      intro p hp
      obtain ⟨m, hm, rfl⟩ := List.mem_map.1 hp
      exact hfeed m hm
    rw [lines, cutAfter_eq_withEnds, hpieces]
    exact hends l rest fun _ hm => hm

end SymbolRanges.Text

import SymbolRanges.Proofs.Text.Offset
import SymbolRanges.Proofs.Tree.Text
import SymbolRanges.Proofs.Tree.Tokens

/-!
# Ranges tell tokens apart

Offsets count units of a text, and every character takes at least one. So the range of an element
of a file says where the element stands (`Node.span_eq_of_range_eq`). Tokens below a node stand
apart if each is taken once, and so they have different ranges unless they are empty
(`Node.range_ne_of_apart`).
-/

set_option autoImplicit false

namespace SymbolRanges

/-! ### Offsets and positions -/

namespace Encoding

variable (encoding : Encoding)

/-- Two texts in a row have the units of both. -/
theorem units_append (first second : String) :
    encoding.units (first ++ second) = encoding.units first + encoding.units second := by
  simp [units_eq_sum_width]

/-- Every character has a unit in every encoding. -/
theorem width_pos (c : Char) : 0 < encoding.width c := by
  have hsize := c.utf8Size_pos
  cases encoding <;> simp only [width]
  · omega
  · split <;> omega
  · exact hsize

/-- A text without units is empty. -/
theorem eq_empty_of_units_eq_zero {text : String} (h : encoding.units text = 0) : text = "" := by
  rw [units_eq_sum_width] at h
  rw [← String.toList_eq_nil_iff]
  cases hlist : text.toList with
  | nil => rfl
  | cons c rest =>
    have hwidth := encoding.width_pos c
    rw [hlist, List.map_cons, List.sum_cons] at h
    omega

/-- Of two beginnings of a text with as many units, the longer is not longer. -/
theorem eq_of_toList_append {first second : String} {more : List Char}
    (h : second.toList = first.toList ++ more)
    (hunits : encoding.units first = encoding.units second) : first = second := by
  have hsecond : second = first ++ String.ofList more := by
    rw [← String.toList_inj, String.toList_append, String.toList_ofList, h]
  rw [hsecond, units_append] at hunits
  have hnone : String.ofList more = "" := encoding.eq_empty_of_units_eq_zero (by omega)
  rw [hsecond, hnone, String.append_empty]

/-- Two beginnings of a text with as many units are the same. -/
theorem eq_of_units_eq {first second rest rest' : String} (h : first ++ rest = second ++ rest')
    (hunits : encoding.units first = encoding.units second) : first = second := by
  have hlist := congrArg String.toList h
  rw [String.toList_append, String.toList_append, List.append_eq_append_iff] at hlist
  rcases hlist with ⟨more, hmore, -⟩ | ⟨more, hmore, -⟩
  · exact encoding.eq_of_toList_append hmore hunits
  · exact (encoding.eq_of_toList_append hmore hunits.symm).symm

end Encoding

namespace Node

variable {root : Node} {x y : Item}

/-- Elements of a file with the same range have the same span. -/
theorem span_eq_of_range_eq (hroot : root.start = 0) (encoding : Encoding) (hx : x ∈ root.preorder)
    (hy : y ∈ root.preorder)
    (h : (OffsetMap.ofText root.text encoding).range x.span =
      (OffsetMap.ofText root.text encoding).range y.span) : x.span = y.span := by
  have hsplit {z : Item} (hz : z ∈ root.preorder) : ∃ before after,
      root.text = before ++ z.text ++ after ∧
      z.span = Span.ofSize before.utf8ByteSize z.text.utf8ByteSize ∧
      (OffsetMap.ofText root.text encoding).range z.span =
        (encoding.units before, encoding.units (before ++ z.text)) := by
    obtain ⟨before, after, htext, hspan⟩ := exists_text_split hz
    rw [hroot, Nat.zero_add] at hspan
    refine ⟨before, after, htext, hspan, ?_⟩
    have hstop : z.span.stop = (before ++ z.text).utf8ByteSize := by
      rw [hspan, String.utf8ByteSize_append]
      rfl
    have hstart : z.span.start = before.utf8ByteSize := congrArg Span.start hspan
    unfold OffsetMap.range
    rw [hstart, hstop]
    conv_lhs => rw [htext]
    rw [OffsetMap.offset_ofText_append, String.append_assoc, OffsetMap.offset_ofText_append]
  obtain ⟨before, after, htext, hspan, hrange⟩ := hsplit hx
  obtain ⟨before', after', htext', hspan', hrange'⟩ := hsplit hy
  rw [hrange, hrange'] at h
  obtain ⟨hstart, hstop⟩ := Prod.mk.inj h
  have htexts : before ++ x.text ++ after = before' ++ y.text ++ after' := by
    rw [← htext, htext']
  -- as many units of the same text are the same beginning of it
  have hbefore : before = before' := by
    rw [String.append_assoc, String.append_assoc] at htexts
    exact encoding.eq_of_units_eq htexts hstart
  have hboth := encoding.eq_of_units_eq htexts hstop
  have hsize := congrArg String.utf8ByteSize hboth
  rw [String.utf8ByteSize_append, String.utf8ByteSize_append, hbefore] at hsize
  rw [hspan, hspan', hbefore, Nat.add_left_cancel hsize]

end Node

/-! ### Tokens apart -/

/-- One token ends before the other starts. -/
def Token.Apart (s t : Token) : Prop := s.span.stop ≤ t.span.start ∨ t.span.stop ≤ s.span.start

/-- Tokens lie apart in both orders. -/
theorem Token.Apart.symm {s t : Token} (h : s.Apart t) : t.Apart s := Or.symm h

/-- Tokens below a node, each taken at most once, stand apart. -/
theorem Node.pairwise_apart {n : Node} {ts : List Token} (h : ts.Subperm n.tokens) :
    ts.Pairwise Token.Apart := by
  obtain ⟨l, hperm, hsublist⟩ := h
  have hl : l.Pairwise Token.Apart :=
    (n.inOrder_tokens.pairwise.sublist hsublist).imp fun h => Or.inl h
  exact hperm.pairwise hl fun h => h.symm

namespace Element

mutual

/-- An element is as large as the tokens below it together. -/
theorem sum_size_preorder (tree : TreeId) (start : Nat) (e : Element) :
    (((e.preorder tree start).filterMap Item.token?).map fun t => t.text.utf8ByteSize).sum =
      e.size := by
  cases e with
  | token kind text => simp [preorder, Item.token?, size]
  | node kind children => exact sum_size_preorderAll tree start children

/-- The bytes of the tokens below consecutive elements are the bytes of the elements. -/
theorem sum_size_preorderAll (tree : TreeId) (start : Nat) (es : List Element) :
    (((preorderAll tree start es).filterMap Item.token?).map fun t => t.text.utf8ByteSize).sum =
      sizeAll es := by
  cases es with
  | nil => rfl
  | cons e rest =>
    rw [preorderAll, List.filterMap_append, List.map_append, List.sum_append, sizeAll,
      sum_size_preorder tree start e, sum_size_preorderAll tree (start + e.size) rest]

end

end Element

/-- The tokens of an item: itself, or those below it. -/
def Item.tokens (x : Item) : List Token := x.preorder.filterMap Item.token?

/-- Where a token with a text stands, an element with the same span has a token that is not apart
from it. -/
theorem Item.exists_overlap {x : Item} {t : Token} (h : x.span = t.span) (ht : t.text ≠ "") :
    ∃ u ∈ x.tokens, ¬ u.Apart t := by
  have hsize := Token.span_start_lt_stop ht
  cases x with
  | token u =>
    refine ⟨u, List.mem_singleton_self u, ?_⟩
    have hspan : u.span = t.span := h
    unfold Token.Apart
    rw [hspan]
    omega
  | node n =>
    have hspan : n.span = t.span := h
    have hsum : (n.tokens.map fun u => u.text.utf8ByteSize).sum = Element.sizeAll n.children :=
      Element.sum_size_preorderAll n.tree n.start n.children
    have hstop : n.span.stop = n.span.start + Element.sizeAll n.children := rfl
    rw [hspan] at hstop
    have hpos : 0 < (n.tokens.map fun u => u.text.utf8ByteSize).sum := by omega
    obtain ⟨size, hmem, hsize⟩ := List.sum_pos_iff_exists_pos_nat.1 hpos
    obtain ⟨u, hu, rfl⟩ := List.mem_map.1 hmem
    obtain ⟨hlo, hhi⟩ := n.inOrder_tokens.bounds u hu
    refine ⟨u, hu, ?_⟩
    have hustop : u.span.stop = u.span.start + u.text.utf8ByteSize := rfl
    have hstart : n.start = t.span.start := congrArg Span.start hspan
    unfold Token.Apart
    omega

/-- An element of a file whose tokens are all apart from a token with a text has another range. -/
theorem Node.range_ne_of_apart {root : Node} (hroot : root.start = 0) (encoding : Encoding)
    {x : Item} {t : Token} (hx : x ∈ root.preorder) (ht : Item.token t ∈ root.preorder)
    (hne : t.text ≠ "") (hapart : ∀ u ∈ x.tokens, u.Apart t) :
    (OffsetMap.ofText root.text encoding).range x.span ≠
      (OffsetMap.ofText root.text encoding).range t.span := by
  intro hrange
  have hspan : x.span = t.span := span_eq_of_range_eq hroot encoding hx ht hrange
  obtain ⟨u, hu, hoverlap⟩ := Item.exists_overlap hspan hne
  exact hoverlap (hapart u hu)

end SymbolRanges

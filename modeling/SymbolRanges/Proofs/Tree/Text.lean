import SymbolRanges.Tree.Construct

/-!
# The text of what stands below a node

What stands below a node that stands below another stands below the other too
(`Node.mem_preorder_trans`). The text of a node splits at each element below it, and the element
starts where the text before it ends: `Node.exists_text_split`.
-/

set_option autoImplicit false

namespace SymbolRanges

/-- The text of an item. -/
def Item.text : Item → String
  | .node n => n.text
  | .token t => t.text

/-- The span of an item's text. -/
def Item.span : Item → Span
  | .node n => n.span
  | .token t => t.span

/-! ### What stands below a node -/

namespace Node

/-- The descendants of a node are the nodes of its pre-order. -/
theorem mem_descendants_iff {n d : Node} : d ∈ n.descendants ↔ Item.node d ∈ n.preorder := by
  unfold descendants
  rw [List.mem_filterMap]
  constructor
  · rintro ⟨item, hitem, hd⟩
    cases item with
    | node m => exact Option.some.inj hd ▸ hitem
    | token t => cases hd
  · exact fun h => ⟨_, h, rfl⟩

/-- The child tokens of a node are the tokens among its items. -/
theorem mem_childTokens_iff {n : Node} {t : Token} :
    t ∈ n.childTokens ↔ Item.token t ∈ n.items := by
  unfold childTokens
  rw [List.mem_filterMap]
  constructor
  · rintro ⟨item, hitem, ht⟩
    cases item with
    | node m => cases ht
    | token u => exact Option.some.inj ht ▸ hitem
  · exact fun h => ⟨_, h, rfl⟩

/-- What is below an item of a node is in the pre-order of the node. -/
theorem mem_preorder_of_mem_items {n : Node} {item x : Item} (hitem : item ∈ n.items)
    (hx : x ∈ item.preorder) : x ∈ n.preorder := by
  rw [preorder_eq]
  exact List.mem_cons_of_mem _ (List.mem_flatMap.2 ⟨item, hitem, hx⟩)

/-- A node is in its own pre-order. -/
theorem self_mem_preorder (n : Node) : Item.node n ∈ n.preorder := by
  rw [preorder_eq]
  exact List.mem_cons_self

/-- The pre-order of a node in a pre-order lies within it. -/
theorem mem_preorder_trans {n d : Node} {x : Item} (hd : Item.node d ∈ n.preorder)
    (hx : x ∈ d.preorder) : x ∈ n.preorder := by
  induction n using Node.induction with
  | step n ih =>
    have hcases := hd
    rw [preorder_eq] at hcases
    rcases List.mem_cons.1 hcases with heq | hbelow
    · exact Item.node.inj heq ▸ hx
    · obtain ⟨item, hitem, hmem⟩ := List.mem_flatMap.1 hbelow
      cases item with
      | token t => cases List.mem_singleton.1 hmem
      | node c => exact mem_preorder_of_mem_items hitem (ih c (mem_childNodes.2 hitem) hmem)

/-- A node is its own descendant. -/
theorem self_mem_descendants (n : Node) : n ∈ n.descendants :=
  mem_descendants_iff.2 n.self_mem_preorder

/-- A descendant of a descendant is a descendant. -/
theorem mem_descendants_trans {n d e : Node} (hd : d ∈ n.descendants) (he : e ∈ d.descendants) :
    e ∈ n.descendants :=
  mem_descendants_iff.2
    (mem_preorder_trans (mem_descendants_iff.1 hd) (mem_descendants_iff.1 he))

/-- A child node is a descendant. -/
theorem mem_descendants_of_mem_childNodes {n c : Node} (h : c ∈ n.childNodes) :
    c ∈ n.descendants :=
  mem_descendants_iff.2 (mem_preorder_of_mem_items (mem_childNodes.1 h) c.self_mem_preorder)

/-- What stands below a child stands below the node. -/
theorem mem_descendants_of_below_child {n c d : Node} (hc : c ∈ n.childNodes)
    (hd : d ∈ c.descendants) : d ∈ n.descendants :=
  mem_descendants_trans (mem_descendants_of_mem_childNodes hc) hd

/-- A child of what stands below a node stands below the node. -/
theorem mem_descendants_of_child_below {n d c : Node} (hd : d ∈ n.descendants)
    (hc : c ∈ d.childNodes) : c ∈ n.descendants :=
  mem_descendants_trans hd (mem_descendants_of_mem_childNodes hc)

/-- A type argument is a descendant. -/
theorem mem_descendants_of_mem_typeArguments {n a : Node} (h : a ∈ n.typeArguments) :
    a ∈ n.descendants := by
  unfold typeArguments at h
  split at h
  · next list hlist =>
    have hlist := mem_descendants_of_mem_childNodes (mem_childNodes_of_child? hlist)
    exact mem_descendants_of_child_below hlist (mem_childNodes_of_mem_childrenOfKind h)
  · cases h

/-- The tokens of a descendant are in the pre-order. -/
theorem token_mem_preorder {n d : Node} {t : Token} (hd : d ∈ n.descendants)
    (ht : t ∈ d.childTokens) : Item.token t ∈ n.preorder :=
  mem_preorder_trans (mem_descendants_iff.1 hd)
    (mem_preorder_of_mem_items (mem_childTokens_iff.1 ht) (List.mem_singleton_self _))

end Node

/-! ### Texts -/

namespace Element

mutual

/-- The size of an element is that of its text. -/
theorem size_eq (e : Element) : e.size = (String.join e.tokenTexts).utf8ByteSize := by
  cases e with
  | token kind text => simp [size, tokenTexts]
  | node kind children => exact sizeAll_eq children

/-- The size of elements is the number of bytes of their text. -/
theorem sizeAll_eq (es : List Element) :
    sizeAll es = (String.join (tokenTextsAll es)).utf8ByteSize := by
  cases es with
  | nil => rfl
  | cons e rest =>
    rw [sizeAll, tokenTextsAll, String.join_append, String.utf8ByteSize_append, size_eq e,
      sizeAll_eq rest]

end

/-- A text that splits at an element, which starts where the part before it ends. -/
def SplitsAt (text : String) (start : Nat) (x : Item) : Prop :=
  ∃ before after, text = before ++ x.text ++ after ∧
    x.span = Span.ofSize (start + before.utf8ByteSize) x.text.utf8ByteSize

/-- The text of an element splits at the element itself. -/
theorem splitsAt_self (tree : TreeId) (start : Nat) (e : Element) :
    SplitsAt (String.join e.tokenTexts) start (e.locate tree start) := by
  refine ⟨"", "", ?_, ?_⟩
  · cases e with
    | token kind text => simp [locate, Item.text, tokenTexts]
    | node kind children => simp [locate, Item.text, tokenTexts, Node.text]
  · cases e with
    | token kind text => rfl
    | node kind children =>
      have hsize := sizeAll_eq children
      simp only [locate, Item.span, Node.span, Item.text, Node.text, hsize]
      rfl

/-- A split of a text is one of the text with more behind it. -/
theorem SplitsAt.append_right {text : String} {start : Nat} {x : Item} (rest : String)
    (h : SplitsAt text start x) : SplitsAt (text ++ rest) start x := by
  obtain ⟨before, after, rfl, hspan⟩ := h
  exact ⟨before, after ++ rest, String.append_assoc, hspan⟩

/-- A split of a text is one of the text with more in front of it, further on. -/
theorem SplitsAt.append_left {text first : String} {start : Nat} {x : Item}
    (h : SplitsAt text (start + first.utf8ByteSize) x) : SplitsAt (first ++ text) start x := by
  obtain ⟨before, after, rfl, hspan⟩ := h
  refine ⟨first ++ before, after, ?_, ?_⟩
  · simp only [String.append_assoc]
  · rw [hspan, String.utf8ByteSize_append, Nat.add_assoc]

mutual

/-- The text of an element splits at every item below it. -/
theorem splitsAt_of_mem_preorder (tree : TreeId) (start : Nat) (e : Element) {x : Item}
    (hx : x ∈ e.preorder tree start) : SplitsAt (String.join e.tokenTexts) start x := by
  cases e with
  | token kind text =>
    rw [List.mem_singleton.1 hx]
    exact splitsAt_self tree start (.token kind text)
  | node kind children =>
    rcases List.mem_cons.1 hx with rfl | hbelow
    · exact splitsAt_self tree start (.node kind children)
    · exact splitsAt_of_mem_preorderAll tree start children hbelow

/-- The text of consecutive elements splits at every item below them. -/
theorem splitsAt_of_mem_preorderAll (tree : TreeId) (start : Nat) (es : List Element) {x : Item}
    (hx : x ∈ preorderAll tree start es) :
    SplitsAt (String.join (tokenTextsAll es)) start x := by
  cases es with
  | nil => cases hx
  | cons e rest =>
    rw [tokenTextsAll, String.join_append]
    rcases List.mem_append.1 hx with hfirst | hrest
    · exact (splitsAt_of_mem_preorder tree start e hfirst).append_right _
    · have hsplit := splitsAt_of_mem_preorderAll tree (start + e.size) rest hrest
      rw [size_eq e] at hsplit
      exact hsplit.append_left

end

end Element

/-- The text of a node splits at each element below it. -/
theorem Node.exists_text_split {n : Node} {x : Item} (hx : x ∈ n.preorder) :
    ∃ before after, n.text = before ++ x.text ++ after ∧
      x.span = Span.ofSize (n.start + before.utf8ByteSize) x.text.utf8ByteSize :=
  Element.splitsAt_of_mem_preorder n.tree n.start (.node n.kind n.children) hx

end SymbolRanges

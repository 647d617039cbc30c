import Mathlib.Data.List.Flatten
import Mathlib.Data.List.Nodup
import Mathlib.Data.List.Perm.Subperm
import SymbolRanges.Tree.Construct

/-!
# The places of tokens

The tokens below a node, from left to right, stand one behind the other: each ends where the next
starts or before (`Node.inOrder_tokens`). So identifiers that are not empty have different spans
(`Node.nodup_spans`), and a span says which of them is meant.

Whatever is gathered from a tree node by node, in whatever order, is compared with the tokens of
the tree by counting: every node below another is a child of exactly one node
(`Node.perm_descendants`), and every token belongs to exactly one (`Node.perm_tokens`).
-/

set_option autoImplicit false

namespace SymbolRanges

/-- Parts of a list, taken with what belongs to them, are parts of the list taken so. -/
theorem subperm_flatMap {α β : Type} (f : α → List β) {xs ys : List α} (h : xs.Subperm ys) :
    (xs.flatMap f).Subperm (ys.flatMap f) := by
  obtain ⟨l, hperm, hsublist⟩ := h
  exact ⟨l.flatMap f, hperm.flatMap_right f, hsublist.flatMap f⟩

/-! ### Tokens in order -/

/-- The span of a token that is not empty is not empty. -/
theorem Token.span_start_lt_stop {t : Token} (h : t.text ≠ "") : t.span.start < t.span.stop := by
  have hpos : t.text.utf8ByteSize ≠ 0 := fun hzero => h (String.utf8ByteSize_eq_zero_iff.1 hzero)
  have hstop : t.span.stop = t.span.start + t.text.utf8ByteSize := rfl
  omega

/-- Tokens that stand one behind the other between two positions. -/
structure Token.InOrder (lo hi : Nat) (ts : List Token) : Prop where
  le : lo ≤ hi
  bounds : ∀ t ∈ ts, lo ≤ t.span.start ∧ t.span.stop ≤ hi
  pairwise : ts.Pairwise fun s t => s.span.stop ≤ t.span.start

namespace Token.InOrder

/-- No tokens at all are in order between any bounds. -/
theorem nil {lo hi : Nat} (h : lo ≤ hi) : InOrder lo hi [] where
  le := h
  bounds := fun _ ht => absurd ht List.not_mem_nil
  pairwise := List.Pairwise.nil

/-- Tokens in order up to a bound, and others from there on, are in order together. -/
theorem append {lo mid hi : Nat} {xs ys : List Token} (hx : InOrder lo mid xs)
    (hy : InOrder mid hi ys) : InOrder lo hi (xs ++ ys) where
  le := Nat.le_trans hx.le hy.le
  bounds := by
    intro t ht
    rcases List.mem_append.1 ht with ht | ht
    · exact ⟨(hx.bounds t ht).1, Nat.le_trans (hx.bounds t ht).2 hy.le⟩
    · exact ⟨Nat.le_trans hx.le (hy.bounds t ht).1, (hy.bounds t ht).2⟩
  pairwise := by
    rw [List.pairwise_append]
    refine ⟨hx.pairwise, hy.pairwise, ?_⟩
    intro s hs t ht
    exact Nat.le_trans (hx.bounds s hs).2 (hy.bounds t ht).1

/-- Some of the tokens in order are in order. -/
theorem filter {lo hi : Nat} {ts : List Token} (h : InOrder lo hi ts) (p : Token → Bool) :
    InOrder lo hi (ts.filter p) where
  le := h.le
  bounds := fun t ht => h.bounds t (List.mem_of_mem_filter ht)
  pairwise := h.pairwise.filter p

end Token.InOrder

namespace Element

/-- The pre-order of consecutive elements continues where those before them end. -/
theorem preorderAll_append (tree : TreeId) (start : Nat) (xs ys : List Element) :
    preorderAll tree start (xs ++ ys) =
      preorderAll tree start xs ++ preorderAll tree (start + sizeAll xs) ys := by
  induction xs generalizing start with
  | nil => simp [preorderAll, sizeAll]
  | cons e rest ih => simp [preorderAll, sizeAll, ih, Nat.add_assoc]

mutual

/-- The tokens below an element fill its span. -/
theorem inOrder_preorder (tree : TreeId) (start : Nat) (e : Element) :
    Token.InOrder start (start + e.size) ((e.preorder tree start).filterMap Item.token?) := by
  cases e with
  | token kind text =>
    refine ⟨Nat.le_add_right _ _, ?_, List.pairwise_singleton _ _⟩
    intro t ht
    rw [List.mem_singleton.1 ht]
    exact ⟨Nat.le_refl _, Nat.le_refl _⟩
  | node kind children => exact inOrder_preorderAll tree start children

/-- The tokens below consecutive elements fill their span. -/
theorem inOrder_preorderAll (tree : TreeId) (start : Nat) (es : List Element) :
    Token.InOrder start (start + sizeAll es)
      ((preorderAll tree start es).filterMap Item.token?) := by
  cases es with
  | nil => exact Token.InOrder.nil (Nat.le_refl _)
  | cons e rest =>
    have hrest := inOrder_preorderAll tree (start + e.size) rest
    rw [preorderAll, List.filterMap_append, sizeAll, ← Nat.add_assoc]
    exact (inOrder_preorder tree start e).append hrest

end

end Element

namespace Node

/-- The tokens below a node, from left to right. -/
def tokens (n : Node) : List Token := n.preorder.filterMap Item.token?

/-- The identifiers among the children of a node. -/
def ownIdentifiers (n : Node) : List Token :=
  n.childTokens.filter fun t => decide (t.kind = .ident)

/-- The identifiers below a node, from left to right. -/
def identifiers (n : Node) : List Token := n.tokens.filter fun t => decide (t.kind = .ident)

/-- The tokens of a node are those of its pre-order. -/
theorem mem_tokens {n : Node} {t : Token} : t ∈ n.tokens ↔ Item.token t ∈ n.preorder := by
  unfold tokens
  rw [List.mem_filterMap]
  refine ⟨?_, fun h => ⟨_, h, rfl⟩⟩
  rintro ⟨item, hitem, htoken⟩
  cases item with
  | node m => cases htoken
  | token u => exact Option.some.inj htoken ▸ hitem

/-- The identifiers of a node are the tokens of this kind in its pre-order. -/
theorem mem_identifiers {n : Node} {t : Token} :
    t ∈ n.identifiers ↔ Item.token t ∈ n.preorder ∧ t.kind = .ident := by
  unfold identifiers
  rw [List.mem_filter, mem_tokens, decide_eq_true_eq]

/-- The tokens of a node are in order between its bounds. -/
theorem inOrder_tokens (n : Node) :
    Token.InOrder n.start (n.start + Element.sizeAll n.children) n.tokens :=
  Element.inOrder_preorderAll n.tree n.start n.children

/-- The descendants of a node are itself and those of its child nodes. -/
theorem descendants_eq (n : Node) :
    n.descendants = n :: n.childNodes.flatMap descendants := by
  unfold descendants childNodes
  rw [preorder_eq, List.filterMap_cons, List.filterMap_flatMap]
  apply congrArg (List.cons n)
  induction n.items with
  | nil => rfl
  | cons item rest ih =>
    rw [List.flatMap_cons, ih]
    cases item with
    | node c => rfl
    | token t => rfl

/-- Every node below another is a child of exactly one node. -/
theorem perm_descendants (n : Node) :
    n.descendants.Perm (n :: n.descendants.flatMap childNodes) := by
  induction n using Node.induction with
  | step n ih =>
    have hchildren : (n.childNodes.flatMap descendants).Perm
        (n.childNodes.flatMap fun c => [c] ++ c.descendants.flatMap childNodes) :=
      List.Perm.flatMap_left _ ih
    have hsplit := List.flatMap_append_perm n.childNodes (fun c => [c])
      fun c => c.descendants.flatMap childNodes
    rw [List.flatMap_singleton'] at hsplit
    rw [descendants_eq, List.flatMap_cons, List.flatMap_assoc]
    exact (hchildren.trans hsplit.symm).cons n

/-- The tokens below consecutive items are those among the items and those below the nodes among
them. -/
theorem perm_tokens_items (items : List Item) :
    ((items.flatMap Item.preorder).filterMap Item.token?).Perm
      (items.filterMap Item.token? ++ (items.filterMap Item.node?).flatMap tokens) := by
  induction items with
  | nil => exact List.Perm.refl _
  | cons item rest ih =>
    rw [List.flatMap_cons, List.filterMap_append]
    cases item with
    | token t =>
      have hsplit : (Item.token t :: rest).filterMap Item.token? =
          [t] ++ rest.filterMap Item.token? := rfl
      rw [hsplit, List.append_assoc]
      exact ih.append_left _
    | node c =>
      have hsplit : (Item.node c :: rest).filterMap Item.node? =
          [c] ++ rest.filterMap Item.node? := rfl
      rw [hsplit, List.flatMap_append, List.flatMap_singleton]
      refine (ih.append_left _).trans ?_
      rw [← List.append_assoc, ← List.append_assoc]
      exact List.perm_append_comm.append_right _

/-- Every token below a node belongs to exactly one node. -/
theorem perm_tokens (n : Node) : n.tokens.Perm (n.descendants.flatMap childTokens) := by
  induction n using Node.induction with
  | step n ih =>
    have hitems := perm_tokens_items n.items
    have hchildren : (n.childNodes.flatMap tokens).Perm
        (n.childNodes.flatMap fun c => c.descendants.flatMap childTokens) :=
      List.Perm.flatMap_left _ ih
    rw [descendants_eq, List.flatMap_cons, List.flatMap_assoc]
    refine List.Perm.trans ?_ (hchildren.append_left _)
    unfold tokens
    rw [preorder_eq, List.filterMap_cons]
    exact hitems

/-- The first child of a kind is of this kind. -/
theorem kind_of_child? {n c : Node} {kind : Kind} (h : n.child? kind = some c) : c.kind = kind := by
  unfold child? at h
  have hkind := List.find?_some h
  exact of_decide_eq_true hkind

/-- The first children of different kinds are different children. -/
theorem flatMap_child?_subperm (n : Node) {kinds : List Kind} (h : kinds.Nodup) :
    (kinds.flatMap fun kind => (n.child? kind).toList).Subperm n.childNodes := by
  have hkinds :
      ((kinds.flatMap fun kind => (n.child? kind).toList).map Node.kind).Sublist kinds := by
    rw [List.map_flatMap]
    have hsublist := List.Sublist.flatMap_right kinds (f := fun kind =>
      (n.child? kind).toList.map Node.kind) (g := fun kind => [kind]) ?_
    · rwa [List.flatMap_singleton'] at hsublist
    · intro kind _
      cases hchild : n.child? kind with
      | none => exact List.nil_sublist _
      | some c =>
        have hkind : c.kind = kind := kind_of_child? hchild
        rw [Option.toList_some, List.map_singleton, hkind]
  apply List.subperm_of_subset (List.Nodup.of_map _ (h.sublist hkinds))
  intro c hc
  obtain ⟨kind, -, hchild⟩ := List.mem_flatMap.1 hc
  exact mem_childNodes_of_child? (Option.mem_toList.1 hchild)

end Node

end SymbolRanges

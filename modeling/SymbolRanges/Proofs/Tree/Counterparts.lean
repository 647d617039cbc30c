import SymbolRanges.Proofs.Tree.Layout

/-!
# The parts of related nodes

Every part of a construct is found without regard to layout, so related nodes have related parts:
each accessor gives related nodes or tokens for related nodes, or nothing for both.
-/

set_option autoImplicit false

namespace SymbolRanges

/-! ### Related lists -/

section Lists

variable {α β γ : Type} {R : α → β → Prop} {xs : List α} {ys : List β}

/-- Related optional values are both absent, or both there and related. -/
theorem absent_or_related {x : Option α} {y : Option β} (h : Option.Rel R x y) :
    (x = none ∧ y = none) ∨ ∃ a b, x = some a ∧ y = some b ∧ R a b := by
  cases h with
  | none => exact .inl ⟨rfl, rfl⟩
  | some h => exact .inr ⟨_, _, rfl, rfl, h⟩

/-- Related lists have equal images under functions that agree on related elements. -/
theorem map_eq_of_forall₂ {f : α → γ} {g : β → γ} (h : List.Forall₂ R xs ys)
    (hfg : ∀ x y, R x y → f x = g y) : xs.map f = ys.map g := by
  rw [← List.forall₂_eq_eq_eq]
  exact List.rel_map (fun x y hxy => hfg x y hxy) h

/-- The first elements of related lists are related. -/
theorem rel_head? (h : List.Forall₂ R xs ys) : Option.Rel R xs.head? ys.head? := by
  cases h with
  | nil => exact .none
  | cons h _ => exact .some h

/-- The last elements of related lists are related. -/
theorem rel_getLast? (h : List.Forall₂ R xs ys) : Option.Rel R xs.getLast? ys.getLast? := by
  rw [← List.head?_reverse, ← List.head?_reverse]
  exact rel_head? (List.rel_reverse h)

/-- Related lists stay related when the elements at their front are dropped by tests that agree. -/
theorem rel_dropWhile {p : α → Bool} {q : β → Bool} (h : List.Forall₂ R xs ys)
    (hpq : ∀ x y, R x y → p x = q y) :
    List.Forall₂ R (xs.dropWhile p) (ys.dropWhile q) := by
  induction h with
  | nil => exact .nil
  | cons hxy hrest ih =>
    rw [List.dropWhile_cons, List.dropWhile_cons, hpq _ _ hxy]
    split
    · exact ih
    · exact .cons hxy hrest

/-- Related lists stay related when they are filtered by tests that agree. -/
theorem rel_filter_eq {p : α → Bool} {q : β → Bool} (h : List.Forall₂ R xs ys)
    (hpq : ∀ x y, R x y → p x = q y) : List.Forall₂ R (xs.filter p) (ys.filter q) := by
  refine List.rel_filter ?_ h
  intro x y hxy
  dsimp only
  rw [hpq x y hxy]

/-- What is dropped from the front may be left out before, if what is left out is dropped. -/
theorem dropWhile_filter {p keep : α → Bool} (h : ∀ x, keep x = false → p x = true) (xs : List α) :
    (xs.filter keep).dropWhile p = (xs.dropWhile p).filter keep := by
  induction xs with
  | nil => rfl
  | cons x rest ih =>
    cases hkeep : keep x with
    | false =>
      rw [List.filter_cons_of_neg (by simp [hkeep]), ih, List.dropWhile_cons_of_pos (h x hkeep)]
    | true =>
      rw [List.filter_cons_of_pos hkeep, List.dropWhile_cons, List.dropWhile_cons, ih]
      split
      · rfl
      · rw [List.filter_cons_of_pos hkeep]

end Lists

/-! ### Accessors and layout -/

/-- Layout is no node, so leaving it out keeps all nodes. -/
theorem Options.filterMap_node?_solid (options : Options) (items : List Item) :
    (options.solid items).filterMap Item.node? = items.filterMap Item.node? := by
  unfold solid
  rw [List.filterMap_filter]
  congr 1
  funext item
  cases item with
  | node c => rfl
  | token t => exact ite_self _

/-- What is chosen by its kind, layout not among it, is not layout. -/
theorem Options.isLayout_eq_false (options : Options) {p : Kind → Bool}
    (hp : ∀ kind, p kind = true → kind.isTrivia = false) {item : Item}
    (h : p item.kind = true) : options.isLayout item = false := by
  rw [Bool.eq_false_iff]
  intro hlayout
  exact Bool.false_ne_true ((hp _ h).symm.trans (isTrivia_of_isLayout hlayout))

/-- Leaving out layout keeps all items of a kind that is none of layout. -/
theorem Options.filter_solid (options : Options) {p : Kind → Bool}
    (hp : ∀ kind, p kind = true → kind.isTrivia = false) (items : List Item) :
    ((options.solid items).filter fun item => p item.kind) =
      items.filter fun item => p item.kind := by
  unfold solid
  rw [List.filter_filter]
  refine List.filter_congr ?_
  intro item _
  cases hitem : p item.kind with
  | false => rfl
  | true => rw [options.isLayout_eq_false hp hitem, Bool.not_false, Bool.and_self]

namespace Node

/-- Tokens that are not layout can be looked for among the children that are not layout. -/
theorem filter_childTokens_eq (options : Options) (n : Node) {p : Kind → Bool}
    (hp : ∀ kind, p kind = true → kind.isTrivia = false) :
    (n.childTokens.filter fun t => p t.kind) =
      ((n.solidItems options).filter fun item => p item.kind).filterMap Item.token? := by
  unfold childTokens solidItems
  rw [options.filter_solid hp, List.filterMap_filter, List.filter_filterMap]
  congr 1
  funext item
  cases item with
  | node c => exact (ite_self _).symm
  | token t => rfl

/-- An initializer can be looked for among the children that are not layout. -/
theorem initializer?_eq_solidItems (options : Options) (n : Node) :
    n.initializer? = (((n.solidItems options).dropWhile fun item =>
      !decide (item.kind = .equals)).filterMap Item.node?).head? := by
  have hlayout : ∀ item, (!options.isLayout item) = false →
      (!decide (item.kind = .equals)) = true := by
    intro item hitem
    rw [Bool.not_eq_true', decide_eq_false_iff_not]
    intro hkind
    have htrivia := Options.isTrivia_of_isLayout ((Bool.not_eq_false' _).mp hitem)
    rw [hkind] at htrivia
    cases htrivia
  unfold initializer? solidItems
  rw [← List.head?_filterMap, ← options.filterMap_node?_solid]
  unfold Options.solid
  rw [dropWhile_filter hlayout]

end Node

/-! ### Related nodes and tokens -/

namespace Counterparts

variable {options : Options} (C : Counterparts options) {m n : Node} {s t : Token}

/-- Related nodes. -/
def Nodes (m n : Node) : Prop := C.related (.node m) (.node n)

/-- Related tokens. -/
def Tokens (s t : Token) : Prop := C.related (.token s) (.token t)

variable {C}

/-- Nodes that correspond are of one kind. -/
theorem Nodes.kind_eq (h : C.Nodes m n) : m.kind = n.kind :=
  (Element.node.inj (C.shape_eq h)).1

/-- Nodes that correspond spell the same name. -/
theorem Nodes.spelling_eq (h : C.Nodes m n) : m.spelling = n.spelling :=
  Node.spelling_eq_of_shape (C.shape_eq h)

/-- Tokens that correspond are of one kind. -/
theorem Tokens.kind_eq (h : C.Tokens s t) : s.kind = t.kind :=
  (Element.token.inj (C.shape_eq h)).1

/-- Tokens that correspond have one text. -/
theorem Tokens.text_eq (h : C.Tokens s t) : s.text = t.text :=
  (Element.token.inj (C.shape_eq h)).2

/-- Items that correspond are of one kind. -/
theorem item_kind_eq {x y : Item} (h : C.related x y) : x.kind = y.kind := by
  rcases Item.both_of_shape_eq (C.shape_eq h) with ⟨m, n, rfl, rfl⟩ | ⟨s, t, rfl, rfl⟩
  · exact Nodes.kind_eq h
  · exact Tokens.kind_eq h

/-- Of two items that correspond, both are nodes that correspond, or neither is a node. -/
theorem rel_node? {x y : Item} (h : C.related x y) : Option.Rel C.Nodes x.node? y.node? := by
  rcases Item.both_of_shape_eq (C.shape_eq h) with ⟨m, n, rfl, rfl⟩ | ⟨s, t, rfl, rfl⟩
  · exact .some h
  · exact .none

/-- Of two items that correspond, both are tokens that correspond, or neither is a token. -/
theorem rel_token? {x y : Item} (h : C.related x y) : Option.Rel C.Tokens x.token? y.token? := by
  rcases Item.both_of_shape_eq (C.shape_eq h) with ⟨m, n, rfl, rfl⟩ | ⟨s, t, rfl, rfl⟩
  · exact .none
  · exact .some h

namespace Nodes

/-- Nodes that correspond have child nodes that correspond. -/
theorem childNodes (h : C.Nodes m n) : List.Forall₂ C.Nodes m.childNodes n.childNodes := by
  unfold Node.childNodes
  rw [← options.filterMap_node?_solid, ← options.filterMap_node?_solid n.items]
  exact List.rel_filterMap (fun _ _ hxy => rel_node? hxy) (C.children h)

/-- The child nodes that are chosen by their kinds. -/
theorem filter_childNodes (h : C.Nodes m n) (p : Kind → Bool) :
    List.Forall₂ C.Nodes (m.childNodes.filter fun c => p c.kind)
      (n.childNodes.filter fun c => p c.kind) :=
  rel_filter_eq h.childNodes fun _ _ hxy => congrArg p (Nodes.kind_eq hxy)

/-- The tokens of a node that are chosen by their kinds, layout not among them. -/
theorem filter_childTokens (h : C.Nodes m n) (p : Kind → Bool)
    (hp : ∀ kind, p kind = true → kind.isTrivia = false) :
    List.Forall₂ C.Tokens (m.childTokens.filter fun t => p t.kind)
      (n.childTokens.filter fun t => p t.kind) := by
  rw [m.filter_childTokens_eq options hp, n.filter_childTokens_eq options hp]
  refine List.rel_filterMap (fun _ _ hxy => rel_token? hxy) ?_
  exact rel_filter_eq (C.children h) fun _ _ hxy => congrArg p (item_kind_eq hxy)

/-- The first item of a kind, layout not among the kinds, in pre-order. -/
theorem find?_preorder (h : C.Nodes m n) (p : Kind → Bool)
    (hp : ∀ kind, p kind = true → kind.isTrivia = false) :
    Option.Rel C.related (m.preorder.find? fun item => p item.kind)
      (n.preorder.find? fun item => p item.kind) := by
  rw [← List.head?_filter, ← List.head?_filter, ← options.filter_solid hp,
    ← options.filter_solid hp n.preorder]
  exact rel_head? (rel_filter_eq (C.solid h) fun _ _ hxy => congrArg p (item_kind_eq hxy))

/-- Nodes that correspond have children of any kind that correspond. -/
theorem childrenOfKind (h : C.Nodes m n) (kind : Kind) :
    List.Forall₂ C.Nodes (m.childrenOfKind kind) (n.childrenOfKind kind) :=
  h.filter_childNodes fun k => decide (k = kind)

/-- Nodes that correspond have first children of any kind that correspond. -/
theorem child? (h : C.Nodes m n) (kind : Kind) :
    Option.Rel C.Nodes (m.child? kind) (n.child? kind) := by
  unfold Node.child?
  rw [← List.head?_filter, ← List.head?_filter]
  exact rel_head? (h.childrenOfKind kind)

/-- Nodes that correspond have names that correspond. -/
theorem nameToken? (h : C.Nodes m n) : Option.Rel C.Tokens m.nameToken? n.nameToken? := by
  unfold Node.nameToken?
  rw [← List.head?_filter, ← List.head?_filter]
  refine rel_head? (h.filter_childTokens (fun kind => decide (kind = .ident)) ?_)
  intro kind hkind
  rw [of_decide_eq_true hkind]
  rfl

/-- References that correspond have names that correspond. -/
theorem referenceName? (h : C.Nodes m n) :
    Option.Rel C.Tokens m.referenceName? n.referenceName? := by
  refine rel_getLast? (h.filter_childTokens
    (fun kind => decide (kind = .ident ∨ kind = .thisKw ∨ kind = .superKw)) ?_)
  intro kind hkind
  rcases of_decide_eq_true hkind with rfl | rfl | rfl <;> rfl

/-- Nodes that correspond have initializers that correspond. -/
theorem initializer? (h : C.Nodes m n) : Option.Rel C.Nodes m.initializer? n.initializer? := by
  rw [m.initializer?_eq_solidItems options, n.initializer?_eq_solidItems options]
  refine rel_head? (List.rel_filterMap (fun _ _ hxy => rel_node? hxy) ?_)
  refine rel_dropWhile (C.children h) ?_
  intro x y hxy
  rw [item_kind_eq hxy]

/-- Classes that correspond have headers that correspond. -/
theorem header (h : C.Nodes m n) : List.Forall₂ C.Nodes m.header n.header :=
  h.filter_childNodes fun kind => decide (kind = .modifierList ∨ kind = .typeParameterList ∨
    kind = .extendsList ∨ kind = .implementsList)

/-- Declaration statements that correspond declare elements that correspond. -/
theorem declared (h : C.Nodes m n) : List.Forall₂ C.Nodes m.declared n.declared :=
  h.filter_childNodes fun kind => decide (kind ≠ .modifierList)

/-- Classes that correspond have members of the same sorts that correspond. -/
theorem members (h : C.Nodes m n) :
    List.Forall₂ (fun p q => p.1 = q.1 ∧ C.Nodes p.2 q.2) m.members n.members := by
  refine List.rel_filterMap ?_ h.childNodes
  intro c d hcd
  dsimp only
  rw [← hcd.kind_eq]
  cases MemberKind.ofKind? c.kind with
  | none => exact .none
  | some kind => exact .some ⟨rfl, hcd⟩

/-- The children of a kind of the first child of a kind. -/
theorem childrenOfChild (h : C.Nodes m n) (outer inner : Kind) :
    List.Forall₂ C.Nodes
      (match m.child? outer with | some list => list.childrenOfKind inner | none => [])
      (match n.child? outer with | some list => list.childrenOfKind inner | none => []) := by
  rcases absent_or_related (h.child? outer) with ⟨hm, hn⟩ | ⟨l, l', hm, hn, hl⟩
  · rw [hm, hn]
    exact .nil
  · rw [hm, hn]
    exact hl.childrenOfKind inner

/-- Methods that correspond have parameters that correspond. -/
theorem parameters (h : C.Nodes m n) : List.Forall₂ C.Nodes m.parameters n.parameters :=
  h.childrenOfChild .parameterList .parameter

/-- References that correspond have type arguments that correspond. -/
theorem typeArguments (h : C.Nodes m n) : List.Forall₂ C.Nodes m.typeArguments n.typeArguments :=
  h.childrenOfChild .typeArgumentList .type

/-- Files that correspond are in one package. -/
theorem packageName_eq (h : C.Nodes m n) : m.packageName = n.packageName := by
  unfold Node.packageName Node.packageStatementName
  rcases absent_or_related (h.child? .packageStatement) with ⟨hm, hn⟩ | ⟨s, s', hm, hn, hs⟩
  · rw [hm, hn]
  · rw [hm, hn]
    dsimp only
    rcases absent_or_related (hs.child? .reference) with ⟨hm, hn⟩ | ⟨r, r', hm, hn, hr⟩
    · rw [hm, hn]
    · rw [hm, hn]
      exact hr.spelling_eq

end Nodes

end Counterparts

end SymbolRanges

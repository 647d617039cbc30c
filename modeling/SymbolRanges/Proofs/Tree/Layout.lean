import Mathlib.Data.List.Forall2
import Mathlib.Data.List.Pairwise
import Mathlib.Data.List.Zip
import SymbolRanges.Options
import SymbolRanges.Proofs.Tree.Ranges

/-!
# Trees that differ in layout

Blanks, block comments and the line comments that mark no region are layout. Two trees that arise
from each other by inserting and deleting layout anywhere (`Tree.SameButLayout`) have the same
shape, which is what is left when all layout is taken out (`Node.shape`). Everything else of the one
tree then corresponds to something of the other: to what stands at the same place in pre-order,
layout not counted.

Corresponding nodes have corresponding children (`Corresponding.children`), and a token that is not
empty is told apart by its span from all others in both trees at once
(`Corresponding.eq_of_span_eq`).
-/

set_option autoImplicit false

namespace SymbolRanges

/-- Whether a token of a kind with a text is layout: blanks, a block comment, or a line comment
that marks no region. -/
def Options.isLayoutToken (options : Options) (kind : Kind) (text : String) : Bool :=
  match kind with
  | .whitespace | .blockComment => true
  | .lineComment => (options.marker? text).isNone
  | _ => false

/-- Whether an item is layout. -/
def Options.isLayout (options : Options) : Item → Bool
  | .node _ => false
  | .token t => options.isLayoutToken t.kind t.text

/-- Consecutive items without those that are layout. -/
def Options.solid (options : Options) (items : List Item) : List Item :=
  items.filter fun item => !options.isLayout item

namespace Element

variable (options : Options)

mutual

/-- What is left of an element when layout is taken out: of layout itself, nothing. -/
def stripped : Element → List Element
  | token kind text => if options.isLayoutToken kind text then [] else [token kind text]
  | node kind children => [node kind (strippedAll children)]

/-- What is left of consecutive elements when layout is taken out. -/
def strippedAll : List Element → List Element
  | [] => []
  | e :: rest => e.stripped ++ strippedAll rest

end

end Element

/-- Consecutive elements of which the second arise from the first by inserting and deleting layout,
among them and among the children of any node below. -/
inductive Element.SameButLayout (options : Options) : List Element → List Element → Prop
  | nil : SameButLayout options [] []
  | insert {kind : Kind} {text : String} {es fs : List Element}
    (h : options.isLayoutToken kind text = true) (hrest : SameButLayout options es fs) :
    SameButLayout options es (.token kind text :: fs)
  | delete {kind : Kind} {text : String} {es fs : List Element}
    (h : options.isLayoutToken kind text = true) (hrest : SameButLayout options es fs) :
    SameButLayout options (.token kind text :: es) fs
  | token {kind : Kind} {text : String} {es fs : List Element}
    (hrest : SameButLayout options es fs) :
    SameButLayout options (.token kind text :: es) (.token kind text :: fs)
  | node {kind : Kind} {cs ds es fs : List Element} (hchildren : SameButLayout options cs ds)
    (hrest : SameButLayout options es fs) :
    SameButLayout options (.node kind cs :: es) (.node kind ds :: fs)

/-- Two trees of which the second arises from the first by inserting and deleting layout among the
children of any nodes. -/
structure Tree.SameButLayout (options : Options) (tree tree' : Tree) : Prop where
  kind_eq : tree.kind = tree'.kind
  children : Element.SameButLayout options tree.children tree'.children

/-- A token by itself, or a node with all layout below it taken out. -/
def Item.shape (options : Options) : Item → Element
  | .node n => .node n.kind (Element.strippedAll options n.children)
  | .token t => .token t.kind t.text

/-- A node with all layout below it taken out. -/
def Node.shape (options : Options) (n : Node) : Element := (Item.node n).shape options

/-- What stands below an item that is not layout, the item included, in pre-order. -/
def Item.solid (options : Options) (item : Item) : List Item := options.solid item.preorder

/-- The children of a node that are not layout. -/
def Node.solidItems (options : Options) (n : Node) : List Item := options.solid n.items

/-- Two items that stand at the same place below two nodes, layout not counted. -/
def Corresponding (options : Options) (m n : Node) (x y : Item) : Prop :=
  (x, y) ∈ ((Item.node m).solid options).zip ((Item.node n).solid options)

/-! ### Shapes -/

section Shapes

variable {options : Options}

/-- Tokens that are layout are white space or comments. -/
theorem Options.isTrivia_of_isLayoutToken {kind : Kind} {text : String}
    (h : options.isLayoutToken kind text = true) : kind.isTrivia = true := by
  unfold isLayoutToken at h
  split at h
  · rfl
  · rfl
  · rfl
  · cases h

/-- Items that are layout are white space or comments. -/
theorem Options.isTrivia_of_isLayout {item : Item} (h : options.isLayout item = true) :
    item.kind.isTrivia = true := by
  cases item with
  | node n => cases h
  | token t => exact isTrivia_of_isLayoutToken h

namespace Element

/-- The items that are not layout have the shapes that are left when layout is taken out. -/
theorem map_shape_solid (tree : TreeId) (start : Nat) (es : List Element) :
    (options.solid (locateAll tree start es)).map (Item.shape options) =
      strippedAll options es := by
  induction es generalizing start with
  | nil => rfl
  | cons e rest ih =>
    have hrest := ih (start + e.size)
    unfold Options.solid at hrest ⊢
    rw [locateAll, strippedAll, List.filter_cons, ← hrest]
    cases e with
    | node kind children => rfl
    | token kind text =>
      cases hlayout : options.isLayoutToken kind text <;>
        simp [locate, Options.isLayout, stripped, Item.shape, hlayout]

mutual

/-- Layout is not part of what an element spells. -/
theorem flatMap_spelledTexts_stripped (options : Options) (e : Element) :
    (e.stripped options).flatMap spelledTexts = e.spelledTexts := by
  cases e with
  | token kind text =>
    rw [stripped]
    split
    · next hlayout =>
      rw [spelledTexts, if_pos (Options.isTrivia_of_isLayoutToken hlayout), List.flatMap_nil]
    · exact List.flatMap_singleton _ _
  | node kind children =>
    rw [stripped, List.flatMap_singleton, spelledTexts, spelledTexts,
      spelledTextsAll_strippedAll options children]

/-- Layout is not part of what consecutive elements spell. -/
theorem spelledTextsAll_strippedAll (options : Options) (es : List Element) :
    spelledTextsAll (strippedAll options es) = spelledTextsAll es := by
  cases es with
  | nil => rfl
  | cons e rest =>
    have hrest := spelledTextsAll_strippedAll options rest
    rw [spelledTextsAll_eq_flatMap] at hrest
    rw [strippedAll, spelledTextsAll_eq_flatMap, List.flatMap_append,
      flatMap_spelledTexts_stripped options e, hrest, spelledTextsAll]

end

end Element

/-- What is left when layout is taken out does not depend on layout. -/
theorem Element.SameButLayout.strippedAll_eq {es fs : List Element}
    (h : SameButLayout options es fs) : strippedAll options es = strippedAll options fs := by
  induction h with
  | nil => rfl
  | insert h _ ih => rw [ih, strippedAll, stripped, if_pos h, List.nil_append]
  | delete h _ ih => rw [← ih, strippedAll, stripped, if_pos h, List.nil_append]
  | token _ ih => rw [strippedAll, strippedAll, ih]
  | node _ _ ihchildren ih =>
    rw [strippedAll, strippedAll, stripped, stripped, ihchildren, ih]

/-- Trees that differ in layout only have roots of one shape. -/
theorem Tree.SameButLayout.shape_eq {tree tree' : Tree} (h : tree.SameButLayout options tree') :
    tree.root.shape options = tree'.root.shape options := by
  unfold Node.shape Item.shape Tree.root
  dsimp only
  rw [h.kind_eq, h.children.strippedAll_eq]

namespace Node

variable {m n : Node}

/-- Nodes of the same shape spell the same name. -/
theorem spelling_eq_of_shape (h : m.shape options = n.shape options) : m.spelling = n.spelling := by
  unfold spelling
  rw [← Element.spelledTextsAll_strippedAll options m.children, (Element.node.inj h).2,
    Element.spelledTextsAll_strippedAll]

/-- Nodes of the same shape have children of the same shapes. -/
theorem forall₂_solidItems (h : m.shape options = n.shape options) :
    List.Forall₂ (fun x y => x.shape options = y.shape options) (m.solidItems options)
      (n.solidItems options) := by
  rw [← List.forall₂_map_right_iff, ← List.forall₂_map_left_iff (R := Eq), List.forall₂_eq_eq_eq]
  unfold solidItems items
  rw [Element.map_shape_solid, Element.map_shape_solid, (Element.node.inj h).2]

end Node

/-! ### Pre-order without layout -/

/-- A token that is no layout stays when layout is left out. -/
theorem Item.solid_token {t : Token} (h : options.isLayout (.token t) = false) :
    (Item.token t).solid options = [.token t] := by
  unfold Item.solid Options.solid
  rw [Item.preorder, List.filter_singleton, h]
  rfl

/-- Layout may be left out of items before they are unfolded into what is below them. -/
theorem Options.solid_flatMap_preorder (items : List Item) :
    options.solid (items.flatMap Item.preorder) =
      (options.solid items).flatMap (Item.solid options) := by
  unfold solid
  rw [List.filter_flatMap]
  induction items with
  | nil => rfl
  | cons item rest ih =>
    rw [List.flatMap_cons, ih, List.filter_cons]
    cases hlayout : options.isLayout item with
    | false => rfl
    | true =>
      cases item with
      | node c => cases hlayout
      | token t =>
        rw [Item.preorder, List.filter_singleton, hlayout]
        rfl

/-- A node comes first, and then everything that is not layout below each child in turn. -/
theorem Node.solid_eq (n : Node) :
    (Item.node n).solid options =
      .node n :: (n.solidItems options).flatMap (Item.solid options) := by
  unfold Node.solidItems
  rw [← Options.solid_flatMap_preorder]
  exact congrArg options.solid n.preorder_eq

/-- An item that is not layout comes first of what stands below it. -/
theorem Item.exists_solid_eq_cons {x : Item} (h : options.isLayout x = false) :
    ∃ rest, x.solid options = x :: rest := by
  cases x with
  | node n => exact ⟨_, Node.solid_eq n⟩
  | token t => exact ⟨_, solid_token h⟩

/-- What is left of the items of a node is no layout. -/
theorem Node.isLayout_of_mem_solidItems {n : Node} {x : Item} (h : x ∈ n.solidItems options) :
    options.isLayout x = false := by
  have hsolid := (List.mem_filter.1 h).2
  rwa [Bool.not_eq_true'] at hsolid

/-- The nodes among what is left of the items of a node are its child nodes. -/
theorem Node.mem_childNodes_of_mem_solidItems {n c : Node}
    (h : Item.node c ∈ n.solidItems options) : c ∈ n.childNodes :=
  mem_childNodes.2 (List.mem_filter.1 h).1

/-- Items of the same shape both are nodes or both are tokens. -/
theorem Item.both_of_shape_eq {x y : Item} (h : x.shape options = y.shape options) :
    (∃ m n, x = .node m ∧ y = .node n) ∨ ∃ s t, x = .token s ∧ y = .token t := by
  cases x with
  | node m =>
    cases y with
    | node n => exact .inl ⟨m, n, rfl, rfl⟩
    | token t => cases h
  | token s =>
    cases y with
    | node n => cases h
    | token t => exact .inr ⟨s, t, rfl, rfl⟩

/-- Of two items of one shape, both are layout or neither is. -/
theorem Options.isLayout_eq_of_shape {x y : Item} (h : x.shape options = y.shape options) :
    options.isLayout x = options.isLayout y := by
  rcases Item.both_of_shape_eq h with ⟨m, n, rfl, rfl⟩ | ⟨s, t, rfl, rfl⟩
  · rfl
  · obtain ⟨hkind, htext⟩ := Element.token.inj h
    rw [isLayout, isLayout, hkind, htext]

end Shapes

/-! ### Counterparts -/

/-- A relation between the items of two trees that differ in layout: related items have the same
shape, and related nodes have related children. -/
structure Counterparts (options : Options) where
  related : Item → Item → Prop
  shape_eq : ∀ {x y}, related x y → x.shape options = y.shape options
  children : ∀ {m n}, related (.node m) (.node n) →
    List.Forall₂ related (m.solidItems options) (n.solidItems options)

namespace Counterparts

variable {options : Options}

/-- Items of the same shape, wherever they stand. -/
def sameShape (options : Options) : Counterparts options where
  related x y := x.shape options = y.shape options
  shape_eq := id
  children := Node.forall₂_solidItems

/-- The items below a node, each related to itself. -/
def same (options : Options) (root : Node) : Counterparts options where
  related x y := x = y ∧ x ∈ root.preorder
  shape_eq := fun h => congrArg (Item.shape options) h.1
  children := by
    rintro m n ⟨hmn, hm⟩
    obtain rfl : m = n := Item.node.inj hmn
    refine List.forall₂_same.2 ?_
    intro x hx
    have hitem : x ∈ m.items := List.mem_of_mem_filter hx
    refine ⟨rfl, Node.mem_preorder_trans hm (Node.mem_preorder_of_mem_items hitem ?_)⟩
    cases x with
    | node c => exact c.self_mem_preorder
    | token t => exact List.mem_singleton_self _

variable (C : Counterparts options)

/-- Tokens that correspond stay together, or are left out together, when layout is left out. -/
theorem solid_token {t : Token} {y : Item} (h : C.related (.token t) y) :
    List.Forall₂ C.related ((Item.token t).solid options) (y.solid options) := by
  cases y with
  | node n => cases C.shape_eq h
  | token u =>
    refine List.rel_filter ?_ (.cons h .nil)
    intro x y hxy
    dsimp only
    rw [Options.isLayout_eq_of_shape (C.shape_eq hxy)]

/-- What stands below related items is related. -/
theorem solid {x y : Item} (h : C.related x y) :
    List.Forall₂ C.related (x.solid options) (y.solid options) := by
  cases x with
  | token t => exact C.solid_token h
  | node m =>
    induction m using Node.induction generalizing y with
    | step m ih =>
      cases y with
      | token u => cases C.shape_eq h
      | node n =>
        rw [Node.solid_eq, Node.solid_eq]
        refine .cons h ?_
        have hitems := (List.forall₂_and_left _ _).2
          ⟨fun x (hx : x ∈ m.solidItems options) => hx, C.children h⟩
        refine List.rel_flatMap hitems ?_
        rintro x y ⟨hx, hxy⟩
        cases x with
        | node c => exact ih c (Node.mem_childNodes_of_mem_solidItems hx) hxy
        | token t => exact C.solid_token hxy

end Counterparts

/-! ### Corresponding items -/

/-- Pairing off what two lists are made of piece by piece, if the pieces have the same lengths. -/
theorem zip_flatMap {α β γ δ : Type} {f : α → List γ} {g : β → List δ} {xs : List α}
    {ys : List β} (h : List.Forall₂ (fun x y => (f x).length = (g y).length) xs ys) :
    (xs.flatMap f).zip (ys.flatMap g) = (xs.zip ys).flatMap fun p => (f p.1).zip (g p.2) := by
  induction h with
  | nil => rfl
  | cons hxy _ ih =>
    rw [List.flatMap_cons, List.flatMap_cons, List.zip_append hxy, ih, List.zip_cons_cons,
      List.flatMap_cons]

namespace Corresponding

variable {options : Options} {m n : Node} {x y : Item}

/-- Items that correspond do so in both directions. -/
theorem symm (h : Corresponding options m n x y) : Corresponding options n m y x := by
  unfold Corresponding at h ⊢
  rw [← List.zip_swap]
  exact List.mem_map.2 ⟨(x, y), h, rfl⟩

/-- An item that corresponds to another is one of the first node. -/
theorem mem_left (h : Corresponding options m n x y) : x ∈ m.preorder := by
  have hsolid : x ∈ options.solid m.preorder := (List.of_mem_zip h).1
  exact List.mem_of_mem_filter hsolid

/-- An item that another corresponds to is one of the second node. -/
theorem mem_right (h : Corresponding options m n x y) : y ∈ n.preorder := h.symm.mem_left

/-- Items that correspond below nodes of one shape are of one shape. -/
theorem shape_eq (h : Corresponding options m n x y) (hshape : m.shape options = n.shape options) :
    x.shape options = y.shape options :=
  List.forall₂_zip ((Counterparts.sameShape options).solid hshape) h

/-- Nodes correspond to each other at their roots. -/
theorem root (options : Options) (m n : Node) : Corresponding options m n (.node m) (.node n) := by
  unfold Corresponding
  rw [Node.solid_eq, Node.solid_eq]
  exact List.mem_cons_self

/-- Items below two nodes of the same shape correspond if they are the nodes themselves or stand at
the same place below corresponding children. -/
theorem iff_below_child (hshape : m.shape options = n.shape options) :
    Corresponding options m n x y ↔ (x = .node m ∧ y = .node n) ∨
      ∃ p ∈ (m.solidItems options).zip (n.solidItems options),
        (x, y) ∈ (p.1.solid options).zip (p.2.solid options) := by
  have hlength : List.Forall₂ (fun x y => (x.solid options).length = (y.solid options).length)
      (m.solidItems options) (n.solidItems options) := by
    refine (Node.forall₂_solidItems hshape).imp ?_
    intro x y hxy
    exact ((Counterparts.sameShape options).solid hxy).length_eq
  unfold Corresponding
  rw [Node.solid_eq, Node.solid_eq, List.zip_cons_cons, zip_flatMap hlength, List.mem_cons,
    Prod.mk.injEq, List.mem_flatMap]

/-- Corresponding nodes have corresponding children. -/
theorem children {a b : Node} (hshape : m.shape options = n.shape options)
    (h : Corresponding options m n (.node a) (.node b)) :
    List.Forall₂ (Corresponding options m n) (a.solidItems options) (b.solidItems options) := by
  induction m using Node.induction generalizing n with
  | step m ih =>
    rcases (iff_below_child hshape).1 h with ⟨ha, hb⟩ | ⟨⟨c, d⟩, hchild, hbelow⟩
    · obtain rfl : a = m := Item.node.inj ha
      obtain rfl : b = n := Item.node.inj hb
      refine List.forall₂_iff_zip.2 ⟨(Node.forall₂_solidItems hshape).length_eq, ?_⟩
      intro x y hxy
      obtain ⟨hx, hy⟩ := List.of_mem_zip hxy
      obtain ⟨xs, hxs⟩ := Item.exists_solid_eq_cons (Node.isLayout_of_mem_solidItems hx)
      obtain ⟨ys, hys⟩ := Item.exists_solid_eq_cons (Node.isLayout_of_mem_solidItems hy)
      refine (iff_below_child hshape).2 (.inr ⟨(x, y), hxy, ?_⟩)
      rw [hxs, hys]
      exact List.mem_cons_self
    · have hcd := List.forall₂_zip (Node.forall₂_solidItems hshape) hchild
      cases c with
      | token t =>
        -- nothing but the token itself stands below a token
        have hlayout := Node.isLayout_of_mem_solidItems (List.of_mem_zip hchild).1
        have hmem := (List.of_mem_zip hbelow).1
        rw [Item.solid_token hlayout, List.mem_singleton] at hmem
        cases hmem
      | node c =>
        cases d with
        | token t => cases hcd
        | node d =>
          have hc := Node.mem_childNodes_of_mem_solidItems (List.of_mem_zip hchild).1
          refine (ih c hc hcd hbelow).imp ?_
          intro x y hxy
          exact (iff_below_child hshape).2 (.inr ⟨_, hchild, hxy⟩)

/-- The tokens of different pairs of corresponding items stand apart. -/
theorem apart_of_ne {a c : Token} {b d : Item} (hab : Corresponding options m n (.token a) b)
    (hcd : Corresponding options m n (.token c) d) (hshape : m.shape options = n.shape options)
    (hne : ((Item.token a, b) : Item × Item) ≠ (.token c, d)) : a.Apart c := by
  have hleft : (((Item.node m).solid options).zip ((Item.node n).solid options)).map Prod.fst =
      (Item.node m).solid options :=
    List.map_fst_zip ((Counterparts.sameShape options).solid hshape).length_eq.le
  have htokens := Node.pairwise_apart (List.Subperm.refl m.tokens)
  have hitems : ((Item.node m).solid options).Pairwise fun x y =>
      ∀ s, x.token? = some s → ∀ t, y.token? = some t → s.Apart t :=
    (List.pairwise_filterMap.1 htokens).filter fun item => !options.isLayout item
  rw [← hleft, List.pairwise_map] at hitems
  have : Std.Symm fun p q : Item × Item => ∀ s, p.1.token? = some s → ∀ t, q.1.token? = some t →
      s.Apart t :=
    ⟨fun _ _ h s hs t ht => (h t ht s hs).symm⟩
  exact hitems.forall hab hcd hne a rfl c rfl

/-- A token that is not empty is told apart by its span: a token with the same span is the same, and
so are the tokens that the two correspond to. -/
theorem eq_of_span_eq {a b c d : Token} (hab : Corresponding options m n (.token a) (.token b))
    (hcd : Corresponding options m n (.token c) (.token d))
    (hshape : m.shape options = n.shape options) (hne : a.text ≠ "") (hspan : a.span = c.span) :
    b = d := by
  by_contra hbd
  have hapart : a.Apart c := by
    refine apart_of_ne hab hcd hshape ?_
    intro hpair
    exact hbd (Item.token.inj (Prod.mk.inj hpair).2)
  have hsize := Token.span_start_lt_stop hne
  unfold Token.Apart at hapart
  rw [← hspan] at hapart
  omega

end Corresponding

/-- The items that correspond below two nodes of the same shape. -/
def Counterparts.corresponding {options : Options} {m n : Node}
    (h : m.shape options = n.shape options) : Counterparts options where
  related := Corresponding options m n
  shape_eq := fun hxy => hxy.shape_eq h
  children := Corresponding.children h

/-- Two spans that stand at the same place in two trees: those of corresponding tokens, or two that
are the span of no identifier. -/
inductive SamePlace (options : Options) (m n : Node) : Span → Span → Prop
  | token {a b : Token} (h : Corresponding options m n (.token a) (.token b)) :
    SamePlace options m n a.span b.span
  | nowhere {d e : Span} (hd : ∀ t ∈ m.identifiers, t.span ≠ d)
    (he : ∀ t ∈ n.identifiers, t.span ≠ e) : SamePlace options m n d e

/-- Of two spans at the same place, either both are those of two corresponding identifiers that are
not empty or neither is. -/
theorem SamePlace.eq_span_iff {options : Options} {m n : Node} {d e : Span} {a b : Token}
    (h : SamePlace options m n d e) (hshape : m.shape options = n.shape options)
    (hab : Corresponding options m n (.token a) (.token b)) (hkind : a.kind = .ident)
    (hne : a.text ≠ "") : d = a.span ↔ e = b.span := by
  obtain ⟨hkinds, htexts⟩ := Element.token.inj (hab.shape_eq hshape)
  cases h with
  | token hplace =>
    constructor
    · intro hd
      rw [hab.eq_of_span_eq hplace hshape hne hd.symm]
    · intro he
      rw [hab.symm.eq_of_span_eq hplace.symm hshape.symm (htexts ▸ hne) he.symm]
  | nowhere hd he =>
    have ha := hd a (Node.mem_identifiers.2 ⟨hab.mem_left, hkind⟩)
    have hb := he b (Node.mem_identifiers.2 ⟨hab.mem_right, hkinds ▸ hkind⟩)
    exact ⟨fun h => absurd h.symm ha, fun h => absurd h.symm hb⟩

end SymbolRanges

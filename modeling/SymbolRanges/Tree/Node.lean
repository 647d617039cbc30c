import SymbolRanges.Text.Span
import SymbolRanges.Tree.Element

/-!
# Elements in their place

A tree has an identity of its own: two trees built apart are different trees even when they are
equal in shape. A node or token in its place knows the byte position where its text starts, and a
node also knows the tree that it belongs to.

`preorder` lists a node and everything below it, each node before its children and siblings from
left to right; `preorder_eq` gives it by recursion on the children, and `Node.induction` is the
matching induction.
-/

set_option autoImplicit false

namespace SymbolRanges

/-- The identity of a tree. -/
structure TreeId where
  number : Nat
  deriving DecidableEq

/-- A node in its place. -/
structure Node where
  tree : TreeId
  start : Nat
  kind : Kind
  children : List Element

/-- A token in its place. -/
structure Token where
  start : Nat
  kind : Kind
  text : String
  deriving DecidableEq

/-- A node or a token in its place. -/
inductive Item where
  | node (node : Node)
  | token (token : Token)

/-- The span of a token's text. -/
def Token.span (token : Token) : Span := Span.ofSize token.start token.text.utf8ByteSize

/-- The span of a node's text. -/
def Node.span (node : Node) : Span := Span.ofSize node.start (Element.sizeAll node.children)

namespace Item

/-- The node that an item is, if it is one. -/
def node? : Item → Option Node
  | node n => some n
  | token _ => none

/-- The token that an item is, if it is one. -/
def token? : Item → Option Token
  | node _ => none
  | token t => some t

/-- The kind of an item. -/
def kind : Item → Kind
  | node n => n.kind
  | token t => t.kind

/-- The byte position where an item starts. -/
def start : Item → Nat
  | node n => n.start
  | token t => t.start

end Item

namespace Element

/-- An element in its place. -/
def locate (tree : TreeId) (start : Nat) : Element → Item
  | token kind text => .token ⟨start, kind, text⟩
  | node kind children => .node ⟨tree, start, kind, children⟩

/-- Consecutive elements in their places, the first of which starts at a given position. -/
def locateAll (tree : TreeId) : Nat → List Element → List Item
  | _, [] => []
  | start, e :: rest => e.locate tree start :: locateAll tree (start + e.size) rest

mutual

/-- An element and everything below it, each node before its children. -/
def preorder (tree : TreeId) (start : Nat) : Element → List Item
  | token kind text => [.token ⟨start, kind, text⟩]
  | node kind children =>
    .node ⟨tree, start, kind, children⟩ :: preorderAll tree start children

/-- Consecutive elements and everything below them, each node before its children. -/
def preorderAll (tree : TreeId) (start : Nat) : List Element → List Item
  | [] => []
  | e :: rest => e.preorder tree start ++ preorderAll tree (start + e.size) rest

end

end Element

/-- An item and everything below it, each node before its children. -/
def Item.preorder : Item → List Item
  | .node n => .node n :: Element.preorderAll n.tree n.start n.children
  | .token t => [.token t]

namespace Node

/-- The children of a node in their places, from left to right. -/
def items (n : Node) : List Item := Element.locateAll n.tree n.start n.children

/-- The children that are nodes. -/
def childNodes (n : Node) : List Node := n.items.filterMap Item.node?

/-- The children that are tokens. -/
def childTokens (n : Node) : List Token := n.items.filterMap Item.token?

/-- A node and everything below it, each node before its children. -/
def preorder (n : Node) : List Item := (Item.node n).preorder

/-- A node and every node below it, each before its children. -/
def descendants (n : Node) : List Node := n.preorder.filterMap Item.node?

/-- The text of a node. -/
def text (n : Node) : String := String.join (Element.tokenTextsAll n.children)

end Node

/-- The pre-order of an element is that of the item which it is in its place. -/
@[simp] theorem Element.preorder_locate (tree : TreeId) (start : Nat) (e : Element) :
    (e.locate tree start).preorder = e.preorder tree start := by
  cases e <;> simp [locate, Item.preorder, preorder]

/-- The pre-order of consecutive elements goes through the items that they are in their places. -/
theorem Element.preorderAll_eq_flatMap (tree : TreeId) (start : Nat) (es : List Element) :
    preorderAll tree start es = (locateAll tree start es).flatMap Item.preorder := by
  induction es generalizing start with
  | nil => rfl
  | cons e rest ih => simp [preorderAll, locateAll, ih]

/-- A node comes first, and then everything below each child in turn. -/
theorem Node.preorder_eq (n : Node) :
    n.preorder = .node n :: n.items.flatMap Item.preorder := by
  simp [preorder, Item.preorder, items, Element.preorderAll_eq_flatMap]

/-- A node among located elements is one of these elements, in the same tree. -/
theorem Element.mem_of_node_mem_locateAll {tree : TreeId} {start : Nat} {es : List Element}
    {n : Node} (h : Item.node n ∈ locateAll tree start es) :
    Element.node n.kind n.children ∈ es ∧ n.tree = tree := by
  induction es generalizing start with
  | nil => simp [locateAll] at h
  | cons e rest ih =>
    rcases List.mem_cons.1 h with h | h
    · cases e with
      | token kind text => simp [locate] at h
      | node kind children =>
        rw [locate, Item.node.injEq] at h
        subst h
        exact ⟨List.mem_cons_self, rfl⟩
    · exact ⟨List.mem_cons_of_mem _ (ih h).1, (ih h).2⟩

/-- The child nodes of a node are the nodes among its items. -/
theorem Node.mem_childNodes {n c : Node} : c ∈ n.childNodes ↔ Item.node c ∈ n.items := by
  simp only [childNodes, List.mem_filterMap]
  constructor
  · rintro ⟨item, hmem, hitem⟩
    cases item with
    | node m => rw [Item.node?, Option.some.injEq] at hitem; exact hitem ▸ hmem
    | token t => simp [Item.node?] at hitem
  · exact fun h => ⟨_, h, rfl⟩

/-- A child node belongs to the tree of its parent. -/
theorem Node.tree_of_mem_childNodes {n c : Node} (h : c ∈ n.childNodes) : c.tree = n.tree :=
  (Element.mem_of_node_mem_locateAll (Node.mem_childNodes.1 h)).2

/-- A child node has smaller children than its parent. -/
theorem Node.sizeOf_children_lt {n c : Node} (h : c ∈ n.childNodes) :
    sizeOf c.children < sizeOf n.children :=
  Element.sizeOf_children_lt (Element.mem_of_node_mem_locateAll (Node.mem_childNodes.1 h)).1

/-- What holds of a node whenever it holds of its child nodes holds of every node. -/
theorem Node.induction {motive : Node → Prop}
    (step : ∀ n : Node, (∀ c ∈ n.childNodes, motive c) → motive n) (n : Node) : motive n :=
  step n fun c _h => Node.induction step c
termination_by sizeOf n.children
decreasing_by exact Node.sizeOf_children_lt _h

/-- A tree: its identity, and the kind and children of its root. -/
structure Tree where
  id : TreeId
  kind : Kind
  children : List Element

/-- The root of a tree stands at the start of the text. -/
def Tree.root (tree : Tree) : Node := ⟨tree.id, 0, tree.kind, tree.children⟩

end SymbolRanges

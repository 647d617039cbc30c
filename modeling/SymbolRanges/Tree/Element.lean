import SymbolRanges.Tree.Kind

/-!
# Elements of a syntax tree

A tree is lossless: its tokens, read from left to right, spell the source text. An element is a
token with its text or a node with its children, and knows nothing of where it stands.
-/

set_option autoImplicit false

namespace SymbolRanges

/-- A token or a node of a syntax tree. -/
inductive Element where
  | token (kind : Kind) (text : String)
  | node (kind : Kind) (children : List Element)

namespace Element

mutual

/-- The size of an element's text in bytes. -/
def size : Element → Nat
  | token _ text => text.utf8ByteSize
  | node _ children => sizeAll children

/-- The size of the text of consecutive elements in bytes. -/
def sizeAll : List Element → Nat
  | [] => 0
  | e :: rest => e.size + sizeAll rest

end

mutual

/-- The texts of the tokens of an element, from left to right. -/
def tokenTexts : Element → List String
  | token _ text => [text]
  | node _ children => tokenTextsAll children

/-- The texts of the tokens of consecutive elements, from left to right. -/
def tokenTextsAll : List Element → List String
  | [] => []
  | e :: rest => e.tokenTexts ++ tokenTextsAll rest

end

mutual

/-- The texts of the tokens of an element that spell a name: layout is left out, and so is
everything inside a list of type arguments. -/
def spelledTexts : Element → List String
  | token kind text => if kind.isTrivia then [] else [text]
  | node kind children => if kind = .typeArgumentList then [] else spelledTextsAll children

/-- The texts of the tokens of consecutive elements that spell a name. -/
def spelledTextsAll : List Element → List String
  | [] => []
  | e :: rest => e.spelledTexts ++ spelledTextsAll rest

end

/-- Consecutive elements have the size of both stretches of them together. -/
@[simp] theorem sizeAll_append (xs ys : List Element) :
    sizeAll (xs ++ ys) = sizeAll xs + sizeAll ys := by
  induction xs with
  | nil => simp [sizeAll]
  | cons e rest ih => simp [sizeAll, ih, Nat.add_assoc]

/-- Consecutive elements spell what each of them spells, one behind the other. -/
theorem spelledTextsAll_eq_flatMap (es : List Element) :
    spelledTextsAll es = es.flatMap spelledTexts := by
  induction es with
  | nil => rfl
  | cons e rest ih => simp [spelledTextsAll, ih]

/-- The children of a node are smaller than the node. -/
theorem sizeOf_children_lt {kind : Kind} {children es : List Element}
    (h : node kind children ∈ es) : sizeOf children < sizeOf es := by
  have := List.sizeOf_lt_of_mem h
  simp only [node.sizeOf_spec] at this
  omega

end Element

end SymbolRanges

import SymbolRanges.Tree.Node

/-!
# The parts of each construct

Where the name, the type, the members and the other parts of a construct stand among the children
of its node. Every part is found by kind and position alone, so a tree may lack any of them.
-/

set_option autoImplicit false

namespace SymbolRanges

/-- Whether a token can name a reference; `this` and `super` name explicit constructor calls. -/
def Token.namesReference (t : Token) : Bool :=
  decide (t.kind = .ident ∨ t.kind = .thisKw ∨ t.kind = .superKw)

/-- What a child of a class declaration declares. -/
inductive MemberKind where
  | field
  | enumConstant
  | method
  | initializer
  | classDecl
  deriving DecidableEq, Repr

/-- What a node of a kind declares as a child of a class declaration, if anything. -/
def MemberKind.ofKind? : Kind → Option MemberKind
  | .field => some .field
  | .enumConstant => some .enumConstant
  | .method => some .method
  | .classInitializer => some .initializer
  | .classDecl => some .classDecl
  | _ => none

namespace Node

/-- The child nodes of a kind. -/
def childrenOfKind (n : Node) (kind : Kind) : List Node :=
  n.childNodes.filter fun c => decide (c.kind = kind)

/-- The first child node of a kind. -/
def child? (n : Node) (kind : Kind) : Option Node :=
  n.childNodes.find? fun c => decide (c.kind = kind)

/-- A node and every node below it that are of a kind, each before its children. -/
def descendantsOfKind (n : Node) (kind : Kind) : List Node :=
  n.descendants.filter fun d => decide (d.kind = kind)

/-- The name of a declaration: its first identifier. Types and lists are child nodes, so their
identifiers do not stand among its own tokens. -/
def nameToken? (n : Node) : Option Token :=
  n.childTokens.find? fun t => decide (t.kind = .ident)

/-! ### Files -/

/-- The name that a reference spells, with layout and type arguments left out. -/
def spelling (n : Node) : String := String.join (Element.spelledTextsAll n.children)

/-- The package that a package statement names; empty when it names none. -/
def packageStatementName (n : Node) : String :=
  match n.child? .reference with
  | some reference => reference.spelling
  | none => ""

/-- The package of a file; empty for the default package. -/
def packageName (n : Node) : String :=
  match n.child? .packageStatement with
  | some statement => statement.packageStatementName
  | none => ""

/-! ### Classes and their members -/

/-- Whether a child of a class declaration belongs to its header. -/
def isHeaderPart (n : Node) : Bool :=
  decide (n.kind = .modifierList ∨ n.kind = .typeParameterList ∨ n.kind = .extendsList ∨
    n.kind = .implementsList)

/-- The children of a class declaration that belong to its header. -/
def header (n : Node) : List Node := n.childNodes.filter isHeaderPart

/-- The members of a class declaration, in order. -/
def members (n : Node) : List (MemberKind × Node) :=
  n.childNodes.filterMap fun c => (MemberKind.ofKind? c.kind).map fun kind => (kind, c)

/-- The initializer of a field or variable: the first node from the first `=` on. -/
def initializer? (n : Node) : Option Node :=
  (n.items.dropWhile fun item => !decide (item.kind = .equals)).findSome? Item.node?

/-- The parameters of a method: those of its first parameter list. -/
def parameters (n : Node) : List Node :=
  match n.child? .parameterList with
  | some list => list.childrenOfKind .parameter
  | none => []

/-- Whether a method is a constructor: it has no return type. -/
def isConstructor (n : Node) : Bool := (n.child? .type).isNone

/-! ### Types and references -/

/-- The keyword of a primitive type. -/
def primitiveKeyword? (n : Node) : Option Token :=
  n.childTokens.find? fun t => t.kind.isPrimitiveType

/-- Whether a type names no symbol: it holds a primitive keyword and no reference. -/
def isPrimitive (n : Node) : Bool :=
  (n.child? .reference).isNone && n.primitiveKeyword?.isSome

/-- The number of array dimensions of a type; a variable arity counts as one. -/
def dimensions (n : Node) : Nat :=
  n.childTokens.countP fun t => decide (t.kind = .lBracket ∨ t.kind = .ellipsis)

/-- The name of a reference without its qualifier: its last identifier, `this` or `super`. -/
def referenceName? (n : Node) : Option Token :=
  (n.childTokens.filter Token.namesReference).getLast?

/-- The qualifier of a reference: its first child that is not a list of type arguments. -/
def qualifier? (n : Node) : Option Node :=
  n.childNodes.find? fun c => decide (c.kind ≠ .typeArgumentList)

/-- The type arguments of a reference: the types in its first list of them. -/
def typeArguments (n : Node) : List Node :=
  match n.child? .typeArgumentList with
  | some list => list.childrenOfKind .type
  | none => []

/-- The types nested directly in a type. -/
def innerTypes (n : Node) : List Node := n.childrenOfKind .type

/-! ### Statements -/

/-- What a declaration statement declares: its children but for modifiers. -/
def declared (n : Node) : List Node :=
  n.childNodes.filter fun c => decide (c.kind ≠ .modifierList)

/-- The first child of a kind is a child. -/
theorem mem_childNodes_of_child? {n c : Node} {kind : Kind} (h : n.child? kind = some c) :
    c ∈ n.childNodes :=
  List.mem_of_find?_eq_some h

/-- The children of a kind are children. -/
theorem mem_childNodes_of_mem_childrenOfKind {n c : Node} {kind : Kind}
    (h : c ∈ n.childrenOfKind kind) : c ∈ n.childNodes :=
  (List.mem_filter.1 h).1

/-- A type argument has smaller children than the reference that it belongs to. -/
theorem sizeOf_children_lt_of_mem_typeArguments {n c : Node} (h : c ∈ n.typeArguments) :
    sizeOf c.children < sizeOf n.children := by
  unfold typeArguments at h
  split at h
  · next list hlist =>
    exact Nat.lt_trans (sizeOf_children_lt (mem_childNodes_of_mem_childrenOfKind h))
      (sizeOf_children_lt (mem_childNodes_of_child? hlist))
  · cases h

end Node

end SymbolRanges

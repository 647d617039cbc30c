import SymbolRanges.Symbol.Target
import SymbolRanges.Table
import SymbolRanges.Tree.Construct

/-!
# Resolvers

A resolver answers what a reference points at and what types a method declaration has. A
resolution table answers for one file, by the span of the name; a workspace answers for many, and
picks the table by the tree that the node belongs to.
-/

set_option autoImplicit false

namespace SymbolRanges

/-- The answers about the references and method declarations of any number of trees. -/
structure Resolver where
  /-- What a reference points at, if that is known. -/
  target? : Node → Option Target
  /-- The types of a method declaration, if they are known. -/
  methodType? : Node → Option MethodType

/-- The answers for one file, under the span of the name of the reference or method. -/
structure Bindings where
  references : Table Span Target
  methods : Table Span MethodType

namespace Bindings

/-- The table without answers. -/
def empty : Bindings := ⟨∅, ∅⟩

/-- Records what the reference with its name at a span points at. -/
def insertReference (table : Bindings) (name : Span) (target : Target) :
    Bindings :=
  { table with references := table.references.insert name target }

/-- Records the types of the method declared with its name at a span. -/
def insertMethod (table : Bindings) (name : Span) (type : MethodType) : Bindings :=
  { table with methods := table.methods.insert name type }

/-- Whether a table holds no answer. -/
def isEmpty (table : Bindings) : Bool :=
  table.references.isEmpty && table.methods.isEmpty

/-- The resolver that answers from a table; what has no name is not resolved. -/
def resolver (table : Bindings) : Resolver where
  target? n := n.referenceName?.bind fun name => table.references.find? name.span
  methodType? n := n.nameToken?.bind fun name => table.methods.find? name.span

end Bindings

/-- The resolution tables of several trees. -/
structure Workspace where
  files : Table TreeId Bindings

namespace Workspace

/-- The workspace without trees. -/
def empty : Workspace := ⟨∅⟩

/-- Registers a tree with its table. -/
def insert (workspace : Workspace) (tree : TreeId) (table : Bindings) : Workspace :=
  ⟨workspace.files.insert tree table⟩

/-- The resolver that answers from the table of the tree that a node belongs to; for a tree that
is not registered nothing is resolved. -/
def resolver (workspace : Workspace) : Resolver where
  target? n := (workspace.files.find? n.tree).bind fun table => table.resolver.target? n
  methodType? n := (workspace.files.find? n.tree).bind fun table => table.resolver.methodType? n

/-- Nodes of a registered tree are answered by its table. -/
theorem target?_resolver {workspace : Workspace} {table : Bindings} {n : Node}
    (h : workspace.files.find? n.tree = some table) :
    workspace.resolver.target? n = table.resolver.target? n := by
  simp [resolver, h]

/-- Method declarations of a registered tree are answered by its table. -/
theorem methodType?_resolver {workspace : Workspace} {table : Bindings} {n : Node}
    (h : workspace.files.find? n.tree = some table) :
    workspace.resolver.methodType? n = table.resolver.methodType? n := by
  simp [resolver, h]

end Workspace

end SymbolRanges

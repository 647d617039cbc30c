import SymbolRanges.Tree.Construct

/-!
# The declarations of a file

The classes of a file with their members, in the order in which they are extracted: a class comes
before its members, and a nested class stands, with its own members, among the members of the
class around it. A class without a name hides its members.
-/

set_option autoImplicit false

namespace SymbolRanges

/-- A declaration at the level of classes. Members know the qualified name of their class. -/
inductive Declaration where
  /-- A class, with the package or class that qualifies its name. -/
  | classDecl (qualifier : Option String) (node : Node)
  | field (owner : String) (node : Node)
  | enumConstant (owner : String) (node : Node)
  | method (owner : String) (node : Node)
  | initializer (owner : String) (node : Node)

/-- The name of a class inside a package or class; outside of any it is the bare name. -/
def qualify (qualifier : Option String) (name : String) : String :=
  match qualifier with
  | some qualifier => qualifier ++ "." ++ name
  | none => name

/-- The qualifier that a package gives its classes; the default package gives none. -/
def packageQualifier (package : String) : Option String :=
  if package = "" then none else some package

namespace Node

/-- The members of a class are smaller than the class. -/
theorem sizeOf_children_lt_of_mem_members {n c : Node} {kind : MemberKind}
    (h : (kind, c) ∈ n.members) : sizeOf c.children < sizeOf n.children := by
  simp only [members, List.mem_filterMap, Option.map_eq_some_iff, Prod.mk.injEq] at h
  obtain ⟨m, hm, -, -, -, rfl⟩ := h
  exact sizeOf_children_lt hm

/-- A class with its members. -/
def classDeclarations (qualifier : Option String) (n : Node) : List Declaration :=
  .classDecl qualifier n ::
    match n.nameToken? with
    | none => []
    | some name =>
      let owner := qualify qualifier name.text
      n.members.attach.flatMap fun ⟨(kind, member), hm⟩ =>
        match kind with
        | .field => [.field owner member]
        | .enumConstant => [.enumConstant owner member]
        | .method => [.method owner member]
        | .initializer => [.initializer owner member]
        | .classDecl =>
          have := sizeOf_children_lt_of_mem_members hm
          classDeclarations (some owner) member
termination_by sizeOf n.children

/-- The declarations that a member of a class contributes. -/
def memberDeclarations (owner : String) : MemberKind × Node → List Declaration
  | (.field, n) => [.field owner n]
  | (.enumConstant, n) => [.enumConstant owner n]
  | (.method, n) => [.method owner n]
  | (.initializer, n) => [.initializer owner n]
  | (.classDecl, n) => n.classDeclarations (some owner)

/-- A class without a name stands alone; one with a name is followed by what its members
contribute. -/
theorem classDeclarations_eq (qualifier : Option String) (n : Node) :
    n.classDeclarations qualifier =
      .classDecl qualifier n ::
        match n.nameToken? with
        | none => []
        | some name => n.members.flatMap (memberDeclarations (qualify qualifier name.text)) := by
  rw [classDeclarations]
  congr 1
  split
  · rfl
  · next name _ =>
    have h (owner : String) : n.members.flatMap (memberDeclarations owner) =
        n.members.attach.flatMap fun member => memberDeclarations owner member.1 := by
      simp
    dsimp only
    rw [h]
    congr 1
    funext ⟨⟨kind, member⟩, hm⟩
    cases kind <;> rfl

/-- The declarations of a file, class by class. -/
def declarations (root : Node) : List Declaration :=
  (root.childrenOfKind .classDecl).flatMap (classDeclarations (packageQualifier root.packageName))

end Node

end SymbolRanges

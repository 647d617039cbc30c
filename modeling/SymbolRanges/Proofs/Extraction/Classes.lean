import SymbolRanges.Proofs.Extraction.Failure
import SymbolRanges.Proofs.Tree.Text

/-!
# The classes of a file and their members

`Node.HasClass` relates a file to each class in it and to what qualifies the name of the class: the
package for a class on the level of the file, and the qualified name of the class around it for a
nested one. `Node.HasDeclaration` adds the members of the classes that have a name.

Both are read off the tree alone, and `Node.mem_declarations_iff` says that a file is scanned
declaration by declaration just so.
-/

set_option autoImplicit false

namespace SymbolRanges

/-- The classes of a file, each with the package or class that qualifies its name. -/
inductive Node.HasClass (root : Node) : Option String → Node → Prop
  | outermost {c : Node} (hc : c ∈ root.childrenOfKind .classDecl) :
    HasClass root (packageQualifier root.packageName) c
  | nested {qualifier : Option String} {outer c : Node} {name : Token}
    (houter : HasClass root qualifier outer) (hname : outer.nameToken? = some name)
    (hc : c ∈ outer.childrenOfKind .classDecl) :
    HasClass root (some (qualify qualifier name.text)) c

/-- The classes of a file with a name, each under its qualified name. -/
def Node.HasNamedClass (root : Node) (owner : String) (c : Node) : Prop :=
  ∃ qualifier name, root.HasClass qualifier c ∧ c.nameToken? = some name ∧
    qualify qualifier name.text = owner

/-- The declarations of a file: its classes, and the members of those with a name. -/
inductive Node.HasDeclaration (root : Node) : Declaration → Prop
  | classDecl {qualifier : Option String} {c : Node} (hc : root.HasClass qualifier c) :
    HasDeclaration root (.classDecl qualifier c)
  | field {owner : String} {c m : Node} (hc : root.HasNamedClass owner c)
    (hm : m ∈ c.childrenOfKind .field) : HasDeclaration root (.field owner m)
  | enumConstant {owner : String} {c m : Node} (hc : root.HasNamedClass owner c)
    (hm : m ∈ c.childrenOfKind .enumConstant) : HasDeclaration root (.enumConstant owner m)
  | method {owner : String} {c m : Node} (hc : root.HasNamedClass owner c)
    (hm : m ∈ c.childrenOfKind .method) : HasDeclaration root (.method owner m)
  | initializer {owner : String} {c m : Node} (hc : root.HasNamedClass owner c)
    (hm : m ∈ c.childrenOfKind .classInitializer) : HasDeclaration root (.initializer owner m)

/-- The node of a declaration. -/
def Declaration.node : Declaration → Node
  | .classDecl _ n => n
  | .field _ n => n
  | .enumConstant _ n => n
  | .method _ n => n
  | .initializer _ n => n

namespace Node

variable {root : Node}

/-! ### What is scanned is declared -/

/-- Everything that is scanned for a class of a file is a declaration of the file. -/
theorem hasDeclaration_of_mem_classDeclarations {n : Node} {qualifier : Option String}
    (hn : root.HasClass qualifier n) {d : Declaration} (hd : d ∈ n.classDeclarations qualifier) :
    root.HasDeclaration d := by
  induction n using Node.induction generalizing qualifier d with
  | step n ih =>
    rw [classDeclarations_eq] at hd
    rcases List.mem_cons.1 hd with rfl | hmember
    · exact .classDecl hn
    · cases hname : n.nameToken? with
      | none =>
        rw [hname] at hmember
        cases hmember
      | some name =>
        rw [hname] at hmember
        obtain ⟨⟨memberKind, m⟩, hm, hd⟩ := List.mem_flatMap.1 hmember
        have hchild := mem_members_iff_toKind.1 hm
        have howner : root.HasNamedClass (qualify qualifier name.text) n :=
          ⟨qualifier, name, hn, hname, rfl⟩
        cases memberKind with
        | field => exact List.mem_singleton.1 hd ▸ .field howner hchild
        | enumConstant => exact List.mem_singleton.1 hd ▸ .enumConstant howner hchild
        | method => exact List.mem_singleton.1 hd ▸ .method howner hchild
        | initializer => exact List.mem_singleton.1 hd ▸ .initializer howner hchild
        | classDecl =>
          exact ih m (mem_childNodes_of_mem_childrenOfKind hchild) (.nested hn hname hchild) hd

/-! ### What is declared is scanned -/

/-- The scan of a class begins with the class itself. -/
theorem classDecl_mem_classDeclarations (qualifier : Option String) (n : Node) :
    .classDecl qualifier n ∈ n.classDeclarations qualifier := by
  rw [classDeclarations_eq]
  exact List.mem_cons_self

/-- The members of a class are scanned wherever the class is. -/
theorem mem_classDeclarations_of_member {n c m : Node} {qualifier qualifier' : Option String}
    {name : Token} {memberKind : MemberKind} {d : Declaration}
    (hc : .classDecl qualifier' c ∈ n.classDeclarations qualifier)
    (hname : c.nameToken? = some name) (hm : (memberKind, m) ∈ c.members)
    (hd : d ∈ memberDeclarations (qualify qualifier' name.text) (memberKind, m)) :
    d ∈ n.classDeclarations qualifier := by
  induction n using Node.induction generalizing qualifier with
  | step n ih =>
    rw [classDeclarations_eq] at hc ⊢
    rcases List.mem_cons.1 hc with heq | hbelow
    · obtain ⟨rfl, rfl⟩ := Declaration.classDecl.inj heq
      rw [hname]
      exact List.mem_cons_of_mem _ (List.mem_flatMap.2 ⟨_, hm, hd⟩)
    · refine List.mem_cons_of_mem _ ?_
      cases houter : n.nameToken? with
      | none =>
        rw [houter] at hbelow
        cases hbelow
      | some outerName =>
        rw [houter] at hbelow
        obtain ⟨⟨outerKind, inner⟩, hinner, hmem⟩ := List.mem_flatMap.1 hbelow
        refine List.mem_flatMap.2 ⟨(outerKind, inner), hinner, ?_⟩
        have hchild := mem_childNodes_of_mem_childrenOfKind (mem_members_iff_toKind.1 hinner)
        cases outerKind with
        | field => cases List.mem_singleton.1 hmem
        | enumConstant => cases List.mem_singleton.1 hmem
        | method => cases List.mem_singleton.1 hmem
        | initializer => cases List.mem_singleton.1 hmem
        | classDecl => exact ih inner hchild hmem

/-- The members of every class that is scanned in a file are scanned there. -/
theorem mem_declarations_of_member (memberKind : MemberKind) {c m : Node}
    {qualifier : Option String} {name : Token} {d : Declaration}
    (hc : .classDecl qualifier c ∈ root.declarations) (hname : c.nameToken? = some name)
    (hm : m ∈ c.childrenOfKind memberKind.toKind)
    (hd : d ∈ memberDeclarations (qualify qualifier name.text) (memberKind, m)) :
    d ∈ root.declarations := by
  unfold declarations at hc ⊢
  obtain ⟨outermost, houtermost, hmem⟩ := List.mem_flatMap.1 hc
  exact List.mem_flatMap.2 ⟨outermost, houtermost,
    mem_classDeclarations_of_member hmem hname (mem_members_iff_toKind.2 hm) hd⟩

/-- Every class with a named way to it is scanned. -/
theorem HasClass.mem_declarations {qualifier : Option String} {c : Node}
    (h : root.HasClass qualifier c) : .classDecl qualifier c ∈ root.declarations := by
  induction h with
  | outermost hc =>
    exact List.mem_flatMap.2 ⟨_, hc, classDecl_mem_classDeclarations _ _⟩
  | nested _ hname hc ih =>
    exact mem_declarations_of_member .classDecl ih hname hc
      (classDecl_mem_classDeclarations _ _)

/-- The declarations that are scanned are those of the classes and members of the file. -/
theorem mem_declarations_iff {d : Declaration} :
    d ∈ root.declarations ↔ root.HasDeclaration d := by
  have hmember (memberKind : MemberKind) {owner : String} {c m : Node}
      (hc : root.HasNamedClass owner c) (hm : m ∈ c.childrenOfKind memberKind.toKind)
      {d : Declaration} (hd : d ∈ memberDeclarations owner (memberKind, m)) :
      d ∈ root.declarations := by
    obtain ⟨qualifier, name, hclass, hname, rfl⟩ := hc
    exact mem_declarations_of_member memberKind hclass.mem_declarations hname hm hd
  constructor
  · intro hd
    obtain ⟨c, hc, hmem⟩ := List.mem_flatMap.1 hd
    exact hasDeclaration_of_mem_classDeclarations (.outermost hc) hmem
  · intro hd
    cases hd with
    | classDecl hc => exact hc.mem_declarations
    | field hc hm => exact hmember .field hc hm (List.mem_singleton_self _)
    | enumConstant hc hm => exact hmember .enumConstant hc hm (List.mem_singleton_self _)
    | method hc hm => exact hmember .method hc hm (List.mem_singleton_self _)
    | initializer hc hm => exact hmember .initializer hc hm (List.mem_singleton_self _)

/-! ### Declarations stand in the tree -/

/-- A class of a file stands below its root. -/
theorem HasClass.mem_descendants {qualifier : Option String} {c : Node}
    (h : root.HasClass qualifier c) : c ∈ root.descendants := by
  induction h with
  | outermost hc =>
    exact mem_descendants_of_mem_childNodes (mem_childNodes_of_mem_childrenOfKind hc)
  | nested _ _ hc ih =>
    exact mem_descendants_of_child_below ih (mem_childNodes_of_mem_childrenOfKind hc)

/-- The members of a class of a file stand below the root of the file. -/
theorem HasNamedClass.member_mem_descendants {owner : String} {c m : Node} {kind : Kind}
    (hc : root.HasNamedClass owner c) (hm : m ∈ c.childrenOfKind kind) :
    m ∈ root.descendants := by
  obtain ⟨qualifier, name, hclass, -, -⟩ := hc
  exact mem_descendants_of_child_below hclass.mem_descendants
    (mem_childNodes_of_mem_childrenOfKind hm)

/-- Every declaration of a file stands below its root. -/
theorem HasDeclaration.mem_descendants {d : Declaration} (h : root.HasDeclaration d) :
    d.node ∈ root.descendants := by
  cases h with
  | classDecl hc => exact hc.mem_descendants
  | field hc hm => exact hc.member_mem_descendants hm
  | enumConstant hc hm => exact hc.member_mem_descendants hm
  | method hc hm => exact hc.member_mem_descendants hm
  | initializer hc hm => exact hc.member_mem_descendants hm

end Node

end SymbolRanges

import SymbolRanges.Extraction.Walk
import SymbolRanges.Proofs.Scan.Decision
import SymbolRanges.Proofs.Walk.Variables

/-!
# What a walk decides

A walk fails at the first reference that points at nothing known. Which references it asks about
depends only on the code and the resolver: those with a name anywhere in the code, and those that
the type of a variable declared there is made of, with or without a name. `Resolver.ResolvesCode`
says that all of them resolve, and `Scope.walk_decides` that a walk decides just that.

The references of a type are given a second time, as the relation `Node.TypeReaches`, and
`mem_typeReferences_iff` says that the list and the relation agree.
-/

set_option autoImplicit false

namespace SymbolRanges

/-! ### The references of a type -/

/-- The references that a type is made of: its name, those of the type arguments of its name if
that is a class, and those of the types nested in it. -/
inductive Node.TypeReaches (isClass : Node → Bool) : Node → Node → Prop
  | name {type reference : Node} (h : type.child? .reference = some reference) :
    TypeReaches isClass type reference
  | argument {type reference argument found : Node} (h : type.child? .reference = some reference)
    (hclass : isClass reference = true) (ha : argument ∈ reference.typeArguments)
    (hfound : TypeReaches isClass argument found) : TypeReaches isClass type found
  | nested {type inner found : Node} (hi : inner ∈ type.innerTypes)
    (hfound : TypeReaches isClass inner found) : TypeReaches isClass type found

namespace Node

variable {isClass : Node → Bool} {type found : Node}

/-- Every reference in the list is one that the type is made of. -/
theorem typeReaches_of_mem_typeReferences {type found : Node}
    (h : found ∈ type.typeReferences isClass) : type.TypeReaches isClass found := by
  rw [typeReferences_eq, List.mem_append, List.mem_flatMap, List.mem_flatMap] at h
  rcases h with ⟨reference, href, hfound⟩ | ⟨inner, hinner, hfound⟩
  · have href := Option.mem_toList.1 href
    unfold nameReferences at hfound
    rcases List.mem_cons.1 hfound with rfl | hfound
    · exact .name href
    · split at hfound
      · next hclass =>
        obtain ⟨argument, hargument, hfound⟩ := List.mem_flatMap.1 hfound
        have hsmaller : sizeOf argument.children < sizeOf type.children :=
          Nat.lt_trans (sizeOf_children_lt_of_mem_typeArguments hargument)
            (sizeOf_children_lt (mem_childNodes_of_child? href))
        exact .argument href hclass hargument (typeReaches_of_mem_typeReferences hfound)
      · cases hfound
  · have hsmaller : sizeOf inner.children < sizeOf type.children :=
      sizeOf_children_lt (mem_childNodes_of_mem_childrenOfKind hinner)
    exact .nested hinner (typeReaches_of_mem_typeReferences hfound)
termination_by sizeOf type.children

/-- Every reference that a type is made of is in the list. -/
theorem mem_typeReferences_of_typeReaches (h : type.TypeReaches isClass found) :
    found ∈ type.typeReferences isClass := by
  induction h with
  | name h =>
    rw [typeReferences_eq, h]
    simp [nameReferences]
  | argument h hclass ha _ ih =>
    rw [typeReferences_eq, h]
    apply List.mem_append_left
    simp only [Option.toList_some, List.flatMap_singleton, nameReferences, hclass, if_true]
    exact List.mem_cons_of_mem _ (List.mem_flatMap.2 ⟨_, ha, ih⟩)
  | nested hi _ ih =>
    rw [typeReferences_eq]
    exact List.mem_append_right _ (List.mem_flatMap.2 ⟨_, hi, ih⟩)

/-- The list holds exactly the references that a type is made of. -/
theorem mem_typeReferences_iff :
    found ∈ type.typeReferences isClass ↔ type.TypeReaches isClass found :=
  ⟨typeReaches_of_mem_typeReferences, mem_typeReferences_of_typeReaches⟩

end Node

/-! ### What resolves -/

namespace Resolver

/-- Whether it is known what a reference points at. -/
def Resolves (resolver : Resolver) (reference : Node) : Prop :=
  (resolver.target? reference).isSome = true

/-- Every reference that a type is made of resolves. -/
def ResolvesType (resolver : Resolver) (type : Node) : Prop :=
  ∀ reference, type.TypeReaches resolver.isClass reference → resolver.Resolves reference

/-- The type of a declaration resolves, if it has one. -/
def ResolvesTypeOf (resolver : Resolver) (declaration : Node) : Prop :=
  ∀ type, declaration.child? .type = some type → resolver.ResolvesType type

/-- Every reference with a name in a stretch of code resolves, and so does the type of every
variable declared in it. -/
def ResolvesCode (resolver : Resolver) (n : Node) : Prop :=
  (∀ r ∈ n.descendants, r.kind = .reference → r.referenceName?.isSome = true →
    resolver.Resolves r) ∧
  ∀ d ∈ n.descendants, ∀ v ∈ d.variableNodes, resolver.ResolvesTypeOf v

/-- A part of a construct resolves, if it is there. -/
def ResolvesPart (resolver : Resolver) (n : Node) (kind : Kind) : Prop :=
  ∀ part, n.child? kind = some part → resolver.ResolvesCode part

/-- What a node refers to resolves, and so do the types of what it declares. -/
def ResolvesNode (resolver : Resolver) (n : Node) : Prop :=
  (n.kind = .reference → n.referenceName?.isSome = true → resolver.Resolves n) ∧
    ∀ v ∈ n.variableNodes, resolver.ResolvesTypeOf v

/-- What an item refers to resolves; a token refers to nothing. -/
def ResolvesItem (resolver : Resolver) : Item → Prop
  | .node n => resolver.ResolvesNode n
  | .token _ => True

/-- Code resolves when every item of it does. -/
theorem forall_preorder_resolvesItem_iff (resolver : Resolver) (n : Node) :
    (∀ item ∈ n.preorder, resolver.ResolvesItem item) ↔ resolver.ResolvesCode n := by
  have hmem (d : Node) : d ∈ n.descendants ↔ Item.node d ∈ n.preorder := by
    unfold Node.descendants
    rw [List.mem_filterMap]
    constructor
    · rintro ⟨item, hitem, hd⟩
      cases item with
      | node m => rw [Item.node?, Option.some.injEq] at hd; exact hd ▸ hitem
      | token t => simp [Item.node?] at hd
    · exact fun h => ⟨_, h, rfl⟩
  constructor
  · intro h
    exact ⟨fun r hr => (h _ ((hmem r).1 hr)).1, fun d hd => (h _ ((hmem d).1 hd)).2⟩
  · intro h item hitem
    cases item with
    | node d => exact ⟨h.1 d ((hmem d).2 hitem), h.2 d ((hmem d).2 hitem)⟩
    | token t => trivial

end Resolver

/-- A failure of a file at a reference or at a method declaration, not of its tree. -/
def FileFailure.IsUnresolved (file : String) (failure : FileFailure) : Prop :=
  failure.file = file ∧ failure.code ≠ .malformedTree

/-! ### What each step decides -/

/-- A record always passes. -/
theorem FileContext.record_decides {σ : Type} {allowed : FileFailure → Prop}
    (context : FileContext) (span : Span) (identity : Identity) :
    (context.record span identity : Scan σ Unit).Decides allowed True := by
  apply Scan.Decides.write
  intro d hd
  cases hd

/-- A warning passes, since warnings are no errors. -/
theorem FileContext.warning_decides {σ : Type} {allowed : FileFailure → Prop}
    (context : FileContext) (position : Nat) (scope : String) (warning : Warning) :
    (Scan.write (.diagnostic (context.warningAt position scope warning)) :
      Scan σ Unit).Decides allowed True := by
  apply Scan.Decides.write
  intro d hd
  rw [List.mem_singleton.1 hd]
  rfl

/-- A line of the log always passes. -/
theorem Scan.Decides.note {σ : Type} {allowed : FileFailure → Prop} (event : Log.Event) :
    (Scan.write (.note event) : Scan σ Unit).Decides allowed True := by
  apply Scan.Decides.write
  intro d hd
  cases hd

namespace Scope

variable (scope : Scope)

/-- A walker may warn of anything without failing the file. -/
theorem warn_decides {allowed : FileFailure → Prop} (position : Nat) (warning : Warning) :
    (scope.warn position warning).Decides allowed True :=
  scope.warning_decides position scope.describe warning

/-- A reference that does not resolve always fails the file. -/
theorem failUnresolved_decides (reference : Node) :
    (scope.failUnresolved reference).Decides (FileFailure.IsUnresolved scope.file) False := by
  apply Scan.Decides.fail
  refine ⟨rfl, ?_⟩
  intro h
  cases h

/-- A reference of a declared type passes only if it resolves, whether it has a name or not. -/
theorem recordTypeReference_decides (reference : Node) :
    (scope.recordTypeReference reference).Decides (FileFailure.IsUnresolved scope.file)
      (scope.resolver.Resolves reference) := by
  unfold recordTypeReference
  split
  · next h => exact (scope.failUnresolved_decides reference).congr (by simp [Resolver.Resolves, h])
  · next h =>
    split
    · exact (scope.record_decides _ _).congr (by simp [Resolver.Resolves, h])
    · exact (Scan.Decides.pure ()).congr (by simp [Resolver.Resolves, h])
  · next h => exact (Scan.Decides.note _).congr (by simp [Resolver.Resolves, *])

/-- A type passes only if every reference that it is made of resolves. -/
theorem recordType_decides (type : Node) :
    (scope.recordType type).Decides (FileFailure.IsUnresolved scope.file)
      (scope.resolver.ResolvesType type) := by
  have h := Scan.Decides.forM (type.typeReferences scope.resolver.isClass)
    fun reference _ => scope.recordTypeReference_decides reference
  apply h.congr
  simp only [Node.mem_typeReferences_iff]
  rfl

/-- The type of a declaration passes only if it resolves; without a type nothing is asked for. -/
theorem recordDeclaredType_decides (declaration : Node) :
    (scope.recordDeclaredType declaration).Decides (FileFailure.IsUnresolved scope.file)
      (scope.resolver.ResolvesTypeOf declaration) := by
  unfold recordDeclaredType
  split
  · next type h =>
    exact (scope.recordType_decides type).congr (by simp [Resolver.ResolvesTypeOf, h])
  · next h => exact (Scan.Decides.pure ()).congr (by simp [Resolver.ResolvesTypeOf, h])

/-- Handing out an index never fails the file. -/
theorem assignIndex_decides {allowed : FileFailure → Prop} (name : Token) :
    (scope.assignIndex name).Decides allowed True := by
  unfold assignIndex
  apply (Scan.Decides.get.bind (Q := True) ?_).congr (by simp)
  intro state
  split
  · exact Scan.Decides.overflow
  · next index locals _ =>
    apply ((Scan.Decides.modify _).bind (Q := True) ?_).congr (by simp)
    intro _
    dsimp only
    split
    · exact ((scope.warn_decides _ _).bind fun _ => Scan.Decides.pure index).congr (by simp)
    · exact Scan.Decides.pure index

/-- A variable is declared only if its type resolves. -/
theorem introduceVariable_decides (declaration : Node) :
    (scope.introduceVariable declaration).Decides (FileFailure.IsUnresolved scope.file)
      (scope.resolver.ResolvesTypeOf declaration) := by
  unfold introduceVariable
  apply ((scope.recordDeclaredType_decides declaration).bind (Q := True) ?_).congr (by simp)
  intro _
  split
  · exact scope.warn_decides _ _
  · next name _ =>
    exact ((scope.assignIndex_decides name).bind fun _ => scope.record_decides _ _).congr (by simp)

/-- An element of a declaration statement asks for its type only if it is a local variable. -/
theorem introduceElement_decides (element : Node) :
    (scope.introduceElement element).Decides (FileFailure.IsUnresolved scope.file)
      (element.kind = .localVariable → scope.resolver.ResolvesTypeOf element) := by
  unfold introduceElement
  split
  · next h => exact (scope.introduceVariable_decides element).congr (by simp [h])
  · next h => exact (scope.warn_decides _ _).congr (by simp [h])
  · next h _ =>
    have hne : element.kind ≠ .localVariable := h
    exact (scope.warn_decides _ _).congr (by simp [hne])

/-- A reference to a local variable passes whether it has an index or not. -/
theorem recordLocalReference_decides {allowed : FileFailure → Prop} (reference : Token)
    (declaration : Span) (name : String) :
    (scope.recordLocalReference reference declaration name).Decides allowed True := by
  unfold recordLocalReference
  apply (Scan.Decides.get.bind (Q := True) ?_).congr (by simp)
  intro state
  dsimp only
  split
  · exact ((scope.warn_decides _ _).bind fun _ => scope.record_decides _ _).congr (by simp)
  · exact scope.record_decides _ _

/-- A reference to a parameter passes whether it has an index or not. -/
theorem recordParameterReference_decides {allowed : FileFailure → Prop} (reference : Token)
    (declaration : Span) (name : String) :
    (scope.recordParameterReference reference declaration name).Decides allowed True := by
  unfold recordParameterReference
  apply (Scan.Decides.get.bind (Q := True) ?_).congr (by simp)
  intro state
  dsimp only
  split
  · exact ((scope.warn_decides _ _).bind fun _ => scope.record_decides _ _).congr (by simp)
  · exact scope.record_decides _ _

/-- Whatever a reference points at, recording it never fails the file. -/
theorem recordTarget_decides {allowed : FileFailure → Prop} (reference : Token) (target : Target) :
    (scope.recordTarget reference target).Decides allowed True := by
  unfold recordTarget
  split
  · exact Scan.Decides.pure _
  · exact scope.record_decides _ _
  · exact scope.record_decides _ _
  · exact scope.record_decides _ _
  · exact scope.recordLocalReference_decides _ _ _
  · exact scope.recordParameterReference_decides _ _ _
  · exact scope.recordLocalReference_decides _ _ _
  · exact scope.recordLocalReference_decides _ _ _
  · exact scope.warn_decides _ _
  · exact scope.warn_decides _ _

/-- A reference with a name passes only if it resolves. -/
theorem recordReference_decides (reference : Node) :
    (scope.recordReference reference).Decides (FileFailure.IsUnresolved scope.file)
      (reference.referenceName?.isSome = true → scope.resolver.Resolves reference) := by
  unfold recordReference
  split
  · next h => exact (Scan.Decides.note _).congr (by simp [h])
  · next name h =>
    split
    · next ht =>
      exact (scope.failUnresolved_decides reference).congr (by simp [h, Resolver.Resolves, ht])
    · next target ht =>
      exact (scope.recordTarget_decides name target).congr (by simp [h, Resolver.Resolves, ht])

/-- A token never fails the file, whether it is a marker or not. -/
theorem switchRegion_decides {allowed : FileFailure → Prop} (token : Token) :
    (scope.switchRegion token).Decides allowed True := by
  unfold switchRegion
  split
  · split
    · exact Scan.Decides.pure _
    · apply (Scan.Decides.get.bind (Q := True) ?_).congr (by simp)
      intro state
      dsimp only
      split
      · exact ((Scan.Decides.note _).bind fun _ => Scan.Decides.modify _).congr (by simp)
      · exact Scan.Decides.modify _
  · exact Scan.Decides.pure _

/-! ### What a walk decides -/

/-- The visit of a node passes only if what it refers to resolves and so do the types of what it
declares. -/
theorem visitNode_decides (n : Node) :
    (scope.visitNode n).Decides (FileFailure.IsUnresolved scope.file)
      (scope.resolver.ResolvesNode n) := by
  have hfirst (hk : n.kind = .catchSection ∨ n.kind = .foreachStatement) {parameter : Node}
      (h : n.child? .parameter = some parameter) :
      (scope.introduceVariable parameter).Decides (FileFailure.IsUnresolved scope.file)
        (scope.resolver.ResolvesNode n) := by
    have hr : n.kind ≠ .reference := by rcases hk with h | h <;> simp [h]
    have hv := Node.variableNodes_ofParameter hk
    exact (scope.introduceVariable_decides parameter).congr
      (by simp [Resolver.ResolvesNode, hr, hv, h])
  have hnone (hk : n.kind = .catchSection ∨ n.kind = .foreachStatement)
      (h : n.child? .parameter = none) :
      (pure () : Walk Unit).Decides (FileFailure.IsUnresolved scope.file)
        (scope.resolver.ResolvesNode n) := by
    have hr : n.kind ≠ .reference := by rcases hk with h | h <;> simp [h]
    have hv := Node.variableNodes_ofParameter hk
    exact (Scan.Decides.pure ()).congr (by simp [Resolver.ResolvesNode, hr, hv, h])
  unfold visitNode
  split
  · next hk =>
    have h := Scan.Decides.forM n.declared fun element _ =>
      scope.introduceElement_decides element
    apply h.congr
    simp only [Resolver.ResolvesNode, hk, Node.variableNodes_declarationStatement hk, Node.declared,
      Node.childrenOfKind, List.mem_filter, decide_eq_true_eq]
    constructor
    · intro hall
      refine ⟨by simp, ?_⟩
      rintro v ⟨hv, hvk⟩
      exact hall v ⟨hv, by simp [hvk]⟩ hvk
    · rintro ⟨-, hall⟩ v ⟨hv, -⟩ hvk
      exact hall v ⟨hv, hvk⟩
  · next hk =>
    split
    · next h => exact hfirst (.inl hk) h
    · next h => exact hnone (.inl hk) h
  · next hk =>
    split
    · next h => exact hfirst (.inr hk) h
    · next h => exact hnone (.inr hk) h
  · next hk =>
    have hv : n.variableNodes = [] :=
      Node.variableNodes_eq_nil (by simp [hk]) (by simp [hk]) (by simp [hk])
    exact (scope.recordReference_decides n).congr (by simp [Resolver.ResolvesNode, hk, hv])
  · next h1 h2 h3 h4 =>
    have hv : n.variableNodes = [] := Node.variableNodes_eq_nil h1 h2 h3
    have hr : n.kind ≠ .reference := h4
    exact (Scan.Decides.pure ()).congr (by simp [Resolver.ResolvesNode, hr, hv])

/-- The visit of an item passes only if what the item refers to resolves. -/
theorem visit_decides (item : Item) :
    (scope.visit item).Decides (FileFailure.IsUnresolved scope.file)
      (scope.resolver.ResolvesItem item) := by
  cases item with
  | node n => exact scope.visitNode_decides n
  | token t => exact scope.switchRegion_decides t

/-- A walk decides whether the code resolves. -/
theorem walk_decides (n : Node) :
    (scope.walk n).Decides (FileFailure.IsUnresolved scope.file)
      (scope.resolver.ResolvesCode n) := by
  have h := Scan.Decides.forM n.preorder fun item _ => scope.visit_decides item
  exact h.congr (scope.resolver.forall_preorder_resolvesItem_iff n)

/-- The walk of a part of a declaration passes only if the part resolves. -/
theorem walkPart_decides (n : Node) (kind : Kind) :
    (scope.walkPart n kind).Decides (FileFailure.IsUnresolved scope.file)
      (scope.resolver.ResolvesPart n kind) := by
  unfold walkPart
  split
  · next part h => exact (scope.walk_decides part).congr (by simp [Resolver.ResolvesPart, h])
  · next h => exact (Scan.Decides.pure ()).congr (by simp [Resolver.ResolvesPart, h])

/-- A parameter is declared only if its modifiers and its type resolve. -/
theorem introduceParameter_decides (index : Nat) (parameter : Node) :
    (scope.introduceParameter index parameter).Decides (FileFailure.IsUnresolved scope.file)
      (scope.resolver.ResolvesPart parameter .modifierList ∧
        scope.resolver.ResolvesTypeOf parameter) := by
  unfold introduceParameter
  apply (scope.walkPart_decides parameter .modifierList).bind
  intro _
  apply ((scope.recordDeclaredType_decides parameter).bind (Q := True) ?_).congr (by simp)
  intro _
  split
  · exact scope.warn_decides _ _
  · exact ((Scan.Decides.modify _).bind fun _ => scope.record_decides _ _).congr (by simp)

end Scope

end SymbolRanges

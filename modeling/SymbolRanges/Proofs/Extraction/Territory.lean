import SymbolRanges.Proofs.Extraction.Entries
import SymbolRanges.Proofs.Tree.Ranges

/-!
# The parts of a file

The names that a file declares, the code of its declarations, the declarations that are passed over
because they have no name and the head of the file are different parts of its tree:
`Node.territories_subperm`. So the tokens of these parts stand apart from each other, which is
`FileContext.pairwise_apart`.
-/

set_option autoImplicit false

namespace SymbolRanges

/-! ### The parts of the tree that belong to a declaration -/

namespace Declaration

/-- The nodes of a declaration whose names are recorded. -/
@[simp] def namers : Declaration → List Node
  | .classDecl _ n => if n.nameToken?.isSome then [n] else []
  | .field _ n => [n]
  | .enumConstant _ n => if n.nameToken?.isSome then [n] else []
  | .method _ n => if n.nameToken?.isSome then n :: n.parameters else []
  | .initializer _ _ => []

/-- The node of a class, an enum constant or a method without a name, which is passed over with
everything below it. -/
@[simp] def hidden : Declaration → List Node
  | .classDecl _ n => if n.nameToken?.isSome then [] else [n]
  | .enumConstant _ n => if n.nameToken?.isSome then [] else [n]
  | .method _ n => if n.nameToken?.isSome then [] else [n]
  | .field _ _ => []
  | .initializer _ _ => []

/-- All nodes that belong to a declaration, but for those of its members. -/
def territory (d : Declaration) : List Node :=
  d.namers ++ (d.code.flatMap Node.descendants ++ d.hidden.flatMap Node.descendants)

end Declaration

/-- Lists that are parts of others one by one are parts of them all together. -/
theorem subperm_flatMap_of_forall {α β : Type} {f g : α → List β} {xs : List α}
    (h : ∀ x ∈ xs, (f x).Subperm (g x)) : (xs.flatMap f).Subperm (xs.flatMap g) := by
  induction xs with
  | nil => exact List.Subperm.refl _
  | cons x rest ih =>
    rw [List.flatMap_cons, List.flatMap_cons]
    exact (h x List.mem_cons_self).append (ih fun y hy => h y (List.mem_cons_of_mem x hy))

namespace Node

/-- Nodes of different kinds are different nodes. -/
theorem flatMap_filter_kind_subperm {kinds : List Kind} (h : kinds.Nodup) (nodes : List Node) :
    (kinds.flatMap fun kind => nodes.filter fun c => decide (c.kind = kind)).Subperm nodes := by
  induction kinds generalizing nodes with
  | nil => exact List.nil_subperm
  | cons kind kinds ih =>
    obtain ⟨hkind, hkinds⟩ := List.nodup_cons.1 h
    let others := nodes.filter fun c => !decide (c.kind = kind)
    have hrest : (kinds.flatMap fun k => nodes.filter fun c => decide (c.kind = k)) =
        kinds.flatMap fun k => others.filter fun c => decide (c.kind = k) := by
      refine List.flatMap_congr fun k hk => ?_
      rw [List.filter_filter]
      refine List.filter_congr fun c _ => ?_
      by_cases hc : c.kind = k
      · have hne : k ≠ kind := fun heq => hkind (heq ▸ hk)
        simp [hc, hne]
      · simp [hc]
    rw [List.flatMap_cons, hrest]
    exact ((List.Subperm.refl _).append (ih hkinds others)).trans
      (List.filter_append_perm _ nodes).subperm

/-- The header of a class and its members are different children. -/
theorem header_append_members_subperm (n : Node) :
    (n.header ++ n.members.map Prod.snd).Subperm n.childNodes := by
  have hmembers : n.members.map Prod.snd =
      n.childNodes.filter fun c => (MemberKind.ofKind? c.kind).isSome := by
    unfold members
    induction n.childNodes with
    | nil => rfl
    | cons c rest ih =>
      rw [List.filterMap_cons, List.filter_cons]
      cases h : MemberKind.ofKind? c.kind <;> simp [ih]
  have hsublist : (n.childNodes.filter fun c => (MemberKind.ofKind? c.kind).isSome).Sublist
      (n.childNodes.filter fun c => !isHeaderPart c) := by
    apply List.monotone_filter_right
    intro c hc
    obtain ⟨memberKind, hkind⟩ := Option.isSome_iff_exists.1 hc
    have hk := MemberKind.ofKind?_eq_some_iff.1 hkind
    cases memberKind <;> simp [isHeaderPart, hk, MemberKind.toKind]
  rw [hmembers]
  exact (hsublist.append_left _).subperm.trans
    (List.filter_append_perm isHeaderPart n.childNodes).subperm

/-- A node and what is below different children of it are different nodes below it. -/
theorem descendants_of_parts_subperm {n : Node} {parts : List Node}
    (h : parts.Subperm n.childNodes) : (n :: parts.flatMap descendants).Subperm n.descendants := by
  rw [descendants_eq]
  exact (List.subperm_cons n).2 (subperm_flatMap descendants h)

/-- The parameters of a method with what is below them stand below its parameter list. -/
theorem descendants_parameters_sublist (n : Node) :
    (n.parameters.flatMap descendants).Sublist
      ((n.child? .parameterList).toList.flatMap descendants) := by
  rw [parameters_eq, List.flatMap_assoc]
  refine List.Sublist.flatMap_right _ fun list _ => ?_
  rw [list.descendants_eq]
  exact (List.filter_sublist.flatMap descendants).cons _

/-- The territory of a method with a name is made of different nodes below it. -/
theorem territory_method_subperm {owner : String} {n : Node} {name : Token}
    (hname : n.nameToken? = some name) :
    (Declaration.method owner n).territory.Subperm n.descendants := by
  have hterritory : (Declaration.method owner n).territory =
      n :: (n.parameters ++ (n.methodParts.flatMap descendants ++
        n.parameters.flatMap fun p => p.childNodes.flatMap descendants)) := by
    simp [Declaration.territory, Declaration.code, hname, List.flatMap_assoc]
  -- a parameter is followed by what is below it, in another order
  have hparameters : (n.parameters ++
      n.parameters.flatMap fun p => p.childNodes.flatMap descendants).Perm
        (n.parameters.flatMap descendants) := by
    have hperm := List.flatMap_append_perm n.parameters (fun p => [p])
      fun p => p.childNodes.flatMap descendants
    rw [List.flatMap_singleton'] at hperm
    simpa [← descendants_eq] using hperm
  have hparts : (n.methodParts ++ (n.child? .parameterList).toList).Subperm n.childNodes := by
    have hnodup : [Kind.modifierList, .typeParameterList, .type, .throwsList, .codeBlock,
      .parameterList].Nodup := by decide
    simpa [methodParts] using n.flatMap_child?_subperm hnodup
  have hbelow := descendants_of_parts_subperm hparts
  rw [List.flatMap_append] at hbelow
  rw [hterritory]
  refine List.Subperm.trans ?_ hbelow
  apply (List.subperm_cons n).2
  refine (List.perm_append_comm_assoc _ _ _).subperm.trans ?_
  exact (List.subperm_append_left _).2
    (hparameters.subperm.trans n.descendants_parameters_sublist.subperm)

/-- The declaration of a member that is not a class has a part of the tree of its node. -/
theorem territory_subperm {d : Declaration} (hd : ∀ qualifier c, d ≠ .classDecl qualifier c) :
    d.territory.Subperm d.node.descendants := by
  have hall (n : Node) : (n :: n.childNodes.flatMap descendants).Subperm n.descendants :=
    descendants_of_parts_subperm (List.Subperm.refl n.childNodes)
  have hself (n : Node) : n.descendants.Subperm n.descendants := List.Subperm.refl _
  cases d with
  | classDecl qualifier c => exact absurd rfl (hd qualifier c)
  | field owner n =>
    simpa [Declaration.territory, Declaration.code, Declaration.node] using hall n
  | enumConstant owner n =>
    cases hname : n.nameToken? with
    | none =>
      simpa [Declaration.territory, Declaration.code, Declaration.node, hname] using hself n
    | some name =>
      simpa [Declaration.territory, Declaration.code, Declaration.node, hname] using hall n
  | method owner n =>
    cases hname : n.nameToken? with
    | none =>
      simpa [Declaration.territory, Declaration.code, Declaration.node, hname] using hself n
    | some name => exact territory_method_subperm hname
  | initializer owner n =>
    simpa [Declaration.territory, Declaration.code, Declaration.node] using hself n

/-- The declarations of a class are different parts of its tree. -/
theorem territories_class_subperm (n : Node) (qualifier : Option String) :
    ((n.classDeclarations qualifier).flatMap Declaration.territory).Subperm n.descendants := by
  induction n using Node.induction generalizing qualifier with
  | step n ih =>
    rw [classDeclarations_eq, List.flatMap_cons]
    cases hname : n.nameToken? with
    | none =>
      simpa [Declaration.territory, Declaration.code, Declaration.node, hname]
        using List.Subperm.refl n.descendants
    | some name =>
      let owner := qualify qualifier name.text
      have hown : (Declaration.classDecl qualifier n).territory =
          n :: n.header.flatMap descendants := by
        simp [Declaration.territory, Declaration.code, hname]
      have hmember : ∀ member ∈ n.members,
          ((memberDeclarations owner member).flatMap Declaration.territory).Subperm
            member.2.descendants := by
        rintro ⟨kind, m⟩ hm
        have hchild := mem_childNodes_of_mem_childrenOfKind (mem_members_iff_toKind.1 hm)
        cases kind with
        | classDecl => exact ih m hchild _
        | _ =>
          rw [memberDeclarations, List.flatMap_singleton]
          exact territory_subperm (by simp)
      have hmembers : ((n.members.flatMap (memberDeclarations owner)).flatMap
          Declaration.territory).Subperm ((n.members.map Prod.snd).flatMap descendants) := by
        rw [List.flatMap_assoc, List.flatMap_map]
        exact subperm_flatMap_of_forall hmember
      have hparts := descendants_of_parts_subperm n.header_append_members_subperm
      rw [List.flatMap_append] at hparts
      rw [hown]
      exact ((List.Subperm.refl (n :: n.header.flatMap descendants)).append hmembers).trans hparts

/-- The head of a file and its declarations are different parts of its tree. -/
theorem territories_subperm (root : Node) :
    (root.declarations.flatMap Declaration.territory ++
      root.headStatements.flatMap descendants).Subperm root.descendants := by
  have hdeclarations : (root.declarations.flatMap Declaration.territory).Subperm
      ((root.childrenOfKind .classDecl).flatMap descendants) := by
    unfold declarations
    rw [List.flatMap_assoc]
    exact subperm_flatMap_of_forall fun c _ => c.territories_class_subperm _
  have hpackage : (root.child? .packageStatement).toList.Sublist
      (root.childrenOfKind .packageStatement) := by
    cases h : root.child? .packageStatement with
    | none => exact List.nil_sublist _
    | some statement =>
      refine List.singleton_sublist.2 (List.mem_filter.2 ⟨mem_childNodes_of_child? h, ?_⟩)
      exact decide_eq_true (kind_of_child? h)
  have hnodup : [Kind.classDecl, .packageStatement, .importStatement].Nodup := by decide
  have hchildren : (root.childrenOfKind .classDecl ++ root.headStatements).Subperm
      root.childNodes := by
    have hkinds := flatMap_filter_kind_subperm hnodup root.childNodes
    refine List.Subperm.trans ?_ hkinds
    simp only [List.flatMap_cons, List.flatMap_nil, List.append_nil]
    exact (List.subperm_append_left _).2 (hpackage.append_right _).subperm
  have hparts := descendants_of_parts_subperm hchildren
  rw [List.flatMap_append] at hparts
  refine List.Subperm.trans ?_ ((List.Sublist.refl _).cons root |>.subperm.trans hparts)
  exact hdeclarations.append (List.Subperm.refl _)

end Node

/-! ### The tokens of each part -/

namespace Node

/-- The tokens below nodes. -/
def tokensBelow (parts : List Node) : List Token :=
  (parts.flatMap descendants).flatMap childTokens

/-- The tokens of the code of a file. -/
def codeTokens (root : Node) : List Token := root.declarations.flatMap fun d => tokensBelow d.code

/-- The tokens of a file that are passed over because a declaration has no name. -/
def hiddenTokens (root : Node) : List Token :=
  root.declarations.flatMap fun d => tokensBelow d.hidden

/-- The tokens of the head of a file. -/
def headTokens (root : Node) : List Token := tokensBelow root.headStatements

/-- A token right below a node is below every part that the node stands in. -/
theorem mem_tokensBelow {parts : List Node} {part m : Node} {t : Token} (hpart : part ∈ parts)
    (hm : m ∈ part.descendants) (ht : t ∈ m.childTokens) : t ∈ tokensBelow parts :=
  List.mem_flatMap.2 ⟨m, List.mem_flatMap.2 ⟨part, hpart, hm⟩, ht⟩

end Node

namespace FileContext

variable (context : FileContext)

/-- The names of a declaration, with what they declare. -/
def declaredNames (d : Declaration) : List (Token × Identity) :=
  (context.slots d).filterMap NameSlot.declared?

/-- The names that a file declares, with what they declare. -/
def fileNames (root : Node) : List (Token × Identity) :=
  (context.fileSlots root).filterMap NameSlot.declared?

/-- The names of a declaration are those of its namers, in order. -/
theorem map_fst_declaredNames (d : Declaration) :
    (context.declaredNames d).map Prod.fst = d.namers.filterMap Node.nameToken? := by
  have hname (slot : NameSlot) : slot.declared?.map Prod.fst = slot.node.nameToken? := by
    unfold NameSlot.declared?
    cases slot.node.nameToken? <;> rfl
  have hnodes : (context.declaredNames d).map Prod.fst =
      ((context.slots d).map NameSlot.node).filterMap Node.nameToken? := by
    unfold declaredNames
    rw [List.map_filterMap, List.filterMap_map]
    simp only [hname]
    rfl
  rw [hnodes]
  cases d with
  | field owner n => rfl
  | initializer owner n => rfl
  | classDecl qualifier n => cases hname : n.nameToken? <;> simp [slots, slot, hname]
  | enumConstant owner n => cases hname : n.nameToken? <;> simp [slots, slot, hname]
  | method owner n =>
    cases hname : n.nameToken? with
    | none => simp [slots, slot, hname]
    | some name =>
      have hparameters (scope : Scope) :
          (scope.parameterSlots n).map NameSlot.node = n.parameters := by
        rw [Scope.parameterSlots, List.map_map]
        exact List.zipIdx_map_fst 0 n.parameters
      rw [slots, hname, Option.toList_some, List.flatMap_singleton, List.map_cons, hparameters]
      simp [slot, hname]

/-- The names of a declaration, the tokens of its code and those that are passed over belong to
different nodes. -/
theorem names_subperm (d : Declaration) :
    ((context.declaredNames d).map Prod.fst ++
      (Node.tokensBelow d.code ++ Node.tokensBelow d.hidden)).Subperm
        (d.territory.flatMap Node.childTokens) := by
  have hnames : ((context.declaredNames d).map Prod.fst).Sublist
      (d.namers.flatMap Node.childTokens) := by
    rw [map_fst_declaredNames, List.filterMap_eq_flatMap_toList]
    exact List.Sublist.flatMap_right _ fun n _ =>
      n.toList_nameToken?_sublist.trans List.filter_sublist
  unfold Declaration.territory
  rw [List.flatMap_append, List.flatMap_append]
  exact (hnames.append_right _).subperm

/-- The names that a file declares, the tokens of its code, those that are passed over and those of
its head are different tokens of the file. -/
theorem tokens_subperm (root : Node) :
    ((context.fileNames root).map Prod.fst ++
      (root.codeTokens ++ (root.hiddenTokens ++ root.headTokens))).Subperm root.tokens := by
  have hdeclarations : (root.declarations.flatMap fun d =>
      (context.declaredNames d).map Prod.fst ++
        (Node.tokensBelow d.code ++ Node.tokensBelow d.hidden)).Subperm
      ((root.declarations.flatMap Declaration.territory).flatMap Node.childTokens) := by
    rw [List.flatMap_assoc]
    exact subperm_flatMap_of_forall fun d _ => context.names_subperm d
  have hsplit : ((context.fileNames root).map Prod.fst ++
      (root.codeTokens ++ root.hiddenTokens)).Perm (root.declarations.flatMap fun d =>
        (context.declaredNames d).map Prod.fst ++
          (Node.tokensBelow d.code ++ Node.tokensBelow d.hidden)) := by
    unfold fileNames fileSlots Node.codeTokens Node.hiddenTokens
    rw [List.filterMap_flatMap, List.map_flatMap]
    exact ((List.flatMap_append_perm _ _ _).append_left _).trans (List.flatMap_append_perm _ _ _)
  have hterritories := subperm_flatMap Node.childTokens root.territories_subperm
  rw [List.flatMap_append] at hterritories
  rw [← List.append_assoc root.codeTokens, ← List.append_assoc]
  refine List.Subperm.trans ?_ (hterritories.trans root.perm_tokens.symm.subperm)
  exact (hsplit.subperm.trans hdeclarations).append (List.Subperm.refl _)

/-- Names, code, hidden declarations and the head of a file stand apart. -/
theorem pairwise_apart (root : Node) :
    ((context.fileNames root).map Prod.fst ++
      (root.codeTokens ++ (root.hiddenTokens ++ root.headTokens))).Pairwise Token.Apart :=
  Node.pairwise_apart (context.tokens_subperm root)

end FileContext

end SymbolRanges

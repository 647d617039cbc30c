import SymbolRanges.Proofs.Tree.Text

/-!
# The variables of a stretch of code

Three constructs declare local variables: a declaration statement declares each of its local
variables, and a catch section and a for-each statement declare their first parameter. A variable
may lack a name.
-/

set_option autoImplicit false

namespace SymbolRanges

/-- The variables that a construct declares itself, from left to right. -/
def Node.variableNodes (n : Node) : List Node :=
  match n.kind with
  | .declarationStatement => n.childrenOfKind .localVariable
  | .catchSection | .foreachStatement => (n.child? .parameter).toList
  | _ => []

/-- The names of the variables that a construct declares itself. -/
def Node.variableNames (n : Node) : List Token := n.variableNodes.filterMap Node.nameToken?

/-- The names of the variables that an item declares itself; a token declares none. -/
def Item.variableNames : Item → List Token
  | .node n => n.variableNames
  | .token _ => []

namespace Node

/-- The variables of a declaration statement are its local variables. -/
theorem variableNodes_declarationStatement {n : Node} (h : n.kind = .declarationStatement) :
    n.variableNodes = n.childrenOfKind .localVariable := by
  simp [variableNodes, h]

/-- The variable of a catch section or a for-each statement is its first parameter. -/
theorem variableNodes_ofParameter {n : Node}
    (h : n.kind = .catchSection ∨ n.kind = .foreachStatement) :
    n.variableNodes = (n.child? .parameter).toList := by
  rcases h with h | h <;> simp [variableNodes, h]

/-- Other constructs declare no variable. -/
theorem variableNodes_eq_nil {n : Node} (h1 : n.kind ≠ .declarationStatement)
    (h2 : n.kind ≠ .catchSection) (h3 : n.kind ≠ .foreachStatement) : n.variableNodes = [] := by
  unfold variableNodes
  split <;> simp_all

/-- A reference declares nothing. -/
theorem variableNames_of_reference {n : Node} (h : n.kind = .reference) : n.variableNames = [] := by
  unfold variableNames variableNodes
  rw [h]
  rfl

/-- The variables of a construct stand among its children, in the same order. -/
theorem variableNodes_sublist_childNodes (n : Node) : n.variableNodes.Sublist n.childNodes := by
  unfold variableNodes
  split
  · exact List.filter_sublist
  · cases h : n.child? .parameter with
    | none => exact List.nil_sublist _
    | some p => exact List.singleton_sublist.2 (mem_childNodes_of_child? h)
  · cases h : n.child? .parameter with
    | none => exact List.nil_sublist _
    | some p => exact List.singleton_sublist.2 (mem_childNodes_of_child? h)
  · exact List.nil_sublist _

/-- The name of a declaration is one of its own identifiers. -/
theorem mem_childTokens_of_nameToken? {n : Node} {t : Token} (h : n.nameToken? = some t) :
    t ∈ n.childTokens ∧ t.kind = .ident := by
  unfold nameToken? at h
  have hkind := List.find?_some h
  exact ⟨List.mem_of_find?_eq_some h, of_decide_eq_true hkind⟩

/-- The name of a declaration below a node is an identifier below the node. -/
theorem ident_below {root d : Node} {t : Token} (hd : d ∈ root.descendants)
    (ht : d.nameToken? = some t) : Item.token t ∈ root.preorder ∧ t.kind = .ident := by
  obtain ⟨hmem, hkind⟩ := mem_childTokens_of_nameToken? ht
  exact ⟨token_mem_preorder hd hmem, hkind⟩

/-- The variables of a construct below a node stand below the node. -/
theorem mem_descendants_of_mem_variableNodes {n d v : Node} (hd : d ∈ n.descendants)
    (hv : v ∈ d.variableNodes) : v ∈ n.descendants :=
  mem_descendants_of_child_below hd (d.variableNodes_sublist_childNodes.subset hv)

/-- The names that a construct below a node declares are identifiers below the node. -/
theorem ident_below_of_mem_variableNames {root d : Node} {t : Token} (hd : d ∈ root.descendants)
    (ht : t ∈ d.variableNames) : Item.token t ∈ root.preorder ∧ t.kind = .ident := by
  obtain ⟨v, hv, hname⟩ := List.mem_filterMap.1 ht
  exact ident_below (mem_descendants_of_mem_variableNodes hd hv) hname

end Node

end SymbolRanges

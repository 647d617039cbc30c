import SymbolRanges.Proofs.Extraction.Comparison
import SymbolRanges.Proofs.Extraction.Territory
import SymbolRanges.Proofs.Text.CheckedOffset
import SymbolRanges.Proofs.Walk.Collisions
import SymbolRanges.Proofs.Walk.Overflow
import SymbolRanges.Proofs.Walk.Places

/-!
# When an extraction has no index left

A file is extracted declaration by declaration, each with a walker of its own. `Resolver.calls` are
the calls of this walker, and `scanDeclaration_overflows_iff` says that the declaration stops for
want of an index exactly where the acts of these calls use up a counter. `extract_overflows_iff` is
the result for files.

A walker goes through different parts of its declaration, with one exception: a field whose modifier
list stands behind its `=` is initialized by this list, and the list is walked twice. So the
variables of a tree bound the indices that are needed once those below such lists are counted twice.
-/

set_option autoImplicit false

namespace SymbolRanges

/-! ### The walker of a declaration -/

namespace Node

variable (n : Node)

/-- The calls that walk a part of a construct, if it is there. -/
def partCalls (kind : Kind) : List WalkerCall := (n.child? kind).toList.map .walk

/-- The calls that record the type of a declaration, if it has one. -/
def typeCalls : List WalkerCall := (n.child? .type).toList.map .recordType

/-- The calls for a field. -/
def fieldCalls : List WalkerCall :=
  n.partCalls .modifierList ++ (n.typeCalls ++ n.initializer?.toList.map .walk)

/-- The calls for a method. -/
def methodCalls : List WalkerCall :=
  n.partCalls .modifierList ++ (n.partCalls .typeParameterList ++ (n.typeCalls ++
    (n.parameters.zipIdx.map (fun p => .parameter p.2 p.1) ++
      (n.partCalls .throwsList ++ n.partCalls .codeBlock))))

end Node

namespace Resolver

variable (resolver : Resolver)

/-- The calls of the walker for a declaration. There is none for a class, an enum constant or a
method without a name, and none for a method whose types are not known. -/
def calls : Declaration → List WalkerCall
  | .classDecl _ n => if n.nameToken?.isSome then n.header.map .walk else []
  | .field _ n => n.fieldCalls
  | .enumConstant _ n => if n.nameToken?.isSome then n.childNodes.map .walk else []
  | .method _ n =>
    if n.nameToken?.isSome && (resolver.methodType? n).isSome then n.methodCalls else []
  | .initializer _ n => [.walk n]

/-- The acts of the walker for a declaration. -/
def walkerActs (d : Declaration) : List WalkAct :=
  (resolver.calls d).flatMap (WalkerCall.acts resolver.isClass)

end Resolver

namespace Scope

variable (scope : Scope)

/-- The walk of a part is one call of the walker, if the part is there. -/
theorem walkPart_eq_calls (n : Node) (kind : Kind) :
    scope.walkPart n kind = (n.partCalls kind).forM scope.call := by
  unfold walkPart Node.partCalls
  rw [Scan.forM_map, Scan.forM_toList]
  cases n.child? kind <;> rfl

/-- Recording the type of a declaration is one call of the walker, if there is a type. -/
theorem recordDeclaredType_eq_calls (n : Node) :
    scope.recordDeclaredType n = n.typeCalls.forM scope.call := by
  unfold recordDeclaredType Node.typeCalls
  rw [Scan.forM_map, Scan.forM_toList]
  cases n.child? .type <;> rfl

/-- The walk of a method is the calls for it, one after the other. -/
theorem walkMethod_eq_calls (n : Node) :
    FileContext.walkMethod n scope = n.methodCalls.forM scope.call := by
  unfold FileContext.walkMethod FileContext.introduceParameters Node.methodCalls
  simp only [walkPart_eq_calls, recordDeclaredType_eq_calls, Scan.forM_append, Scan.forM_map]
  rfl

/-- Calls stop for want of an index exactly where their acts use up a counter. -/
theorem calls_overflow_iff (hbase : scope.options.injectedBase ≤ IndexTable.counterLimit)
    (calls : List WalkerCall) :
    ((calls.forM scope.call).run (.initial scope.options)).result = .error .indexOverflow ↔
      scope.options.UsesUpCounter scope.resolver
        (calls.flatMap (WalkerCall.acts scope.resolver.isClass)) := by
  have hacts : calls.forM scope.call =
      (calls.flatMap (WalkerCall.acts scope.resolver.isClass)).forM scope.act := by
    rw [Scan.forM_flatMap]
    congr
    funext call
    exact scope.call_eq_acts call
  rw [hacts]
  exact scope.overflows_iff hbase _

end Scope

/-- Without an act no counter is used up. -/
theorem Options.not_usesUpCounter_nil (options : Options) (resolver : Resolver) :
    ¬ options.UsesUpCounter resolver [] := by
  rintro ⟨before, v, after, hsplit, -⟩
  cases before <;> cases hsplit

/-- Only how the second scan ends matters for how two scans in a row end. -/
theorem Scan.result_bind_congr {σ α β : Type} (x : Scan σ α) {f g : α → Scan σ β}
    (h : ∀ a s, ((f a).run s).result = ((g a).run s).result) (s : σ) :
    ((x >>= f).run s).result = ((x >>= g).run s).result := by
  rw [run_bind, run_bind, Outcome.andThen, Outcome.andThen]
  cases (x.run s).result with
  | error stop => rfl
  | ok a => exact h a _

namespace FileContext

variable (context : FileContext)

/-- The name of a field is recorded in the middle of its walk, which ends as without it. -/
theorem result_scanField (owner : String) (n : Node) :
    ((context.scanField owner n).run ()).result =
      ((n.fieldCalls.forM (Scope.call ⟨context, owner, .outsideMethod⟩)).run
        (.initial context.options)).result := by
  unfold Node.fieldCalls scanField walkOutside walkIn
  rw [Scan.forM_append, Scan.forM_append, Scan.forM_map, Scan.forM_toList,
    ← Scope.walkPart_eq_calls, ← Scope.recordDeclaredType_eq_calls, Scan.run_fresh]
  refine Scan.result_bind_congr _ (fun _ s => ?_) _
  refine Scan.result_bind_congr _ (fun _ s => ?_) s
  cases n.nameToken? <;> cases n.initializer? <;> rfl

/-- A declaration stops for want of an index exactly where the acts of its walker use up a
counter. -/
theorem scanDeclaration_overflows_iff
    (hbase : context.options.injectedBase ≤ IndexTable.counterLimit) (d : Declaration) :
    ((context.scanDeclaration d).run ()).result = .error .indexOverflow ↔
      context.options.UsesUpCounter context.resolver (context.resolver.walkerActs d) := by
  have hnone := context.options.not_usesUpCounter_nil context.resolver
  unfold Resolver.walkerActs
  cases d with
  | classDecl qualifier n =>
    rw [scanDeclaration, scanClass, Resolver.calls]
    cases hname : n.nameToken? with
    | none => exact iff_of_false (Scan.NeverOverflows.write _ ()) hnone
    | some name =>
      have hwalker := Scope.calls_overflow_iff
        ⟨context, qualify qualifier name.text, .outsideMethod⟩ hbase (n.header.map .walk)
      rw [Scan.forM_map] at hwalker
      exact hwalker
  | field owner n =>
    rw [scanDeclaration, result_scanField]
    exact Scope.calls_overflow_iff ⟨context, owner, .outsideMethod⟩ hbase _
  | enumConstant owner n =>
    rw [scanDeclaration, scanEnumConstant, Resolver.calls]
    cases hname : n.nameToken? with
    | none => exact iff_of_false (Scan.NeverOverflows.write _ ()) hnone
    | some name =>
      have hwalker := Scope.calls_overflow_iff ⟨context, owner, .outsideMethod⟩ hbase
        (n.childNodes.map .walk)
      rw [Scan.forM_map] at hwalker
      exact hwalker
  | method owner n =>
    rw [scanDeclaration, scanMethod, Resolver.calls]
    cases hname : n.nameToken? with
    | none => exact iff_of_false (Scan.NeverOverflows.write _ ()) hnone
    | some name =>
      cases htype : context.resolver.methodType? n with
      | none => exact iff_of_false (Scan.NeverOverflows.fail _ _ ()) hnone
      | some type =>
        have hwalker := Scope.calls_overflow_iff
          ⟨context, owner, ⟨name.text, type.descriptor⟩⟩ hbase n.methodCalls
        rw [← Scope.walkMethod_eq_calls] at hwalker
        exact hwalker
  | initializer owner n =>
    have hwalker := Scope.calls_overflow_iff ⟨context, owner, .classInitializer⟩ hbase [.walk n]
    rw [Scan.forM_singleton] at hwalker
    exact hwalker

/-- A well-formed file stops for want of an index exactly where a declaration does that it comes to:
what is mentioned before it resolves. -/
theorem scanRoot_overflows_iff
    (hbase : context.options.injectedBase ≤ IndexTable.counterLimit) (root : Node) :
    ((context.scanRoot root).run ()).result = .error .indexOverflow ↔
      root.malformation? = none ∧ ∃ before d after, root.declarations = before ++ d :: after ∧
        (∀ e ∈ before, context.resolver.ResolvesDeclaration e) ∧
        context.options.UsesUpCounter context.resolver (context.resolver.walkerActs d) := by
  cases hroot : root.malformation? with
  | some found =>
    obtain ⟨malformation, position⟩ := found
    rw [context.run_scanRoot_of_malformed hroot]
    exact ⟨nofun, nofun⟩
  | none =>
    rw [context.run_scanRoot_of_wellFormed hroot]
    constructor
    · intro h
      obtain ⟨before, d, after, hsplit, hok, hstop⟩ := Scan.exists_of_result_forM_eq_error h
      exact ⟨rfl, before, d, after, hsplit,
        Scan.forall_of_result_forM_eq_ok context.scanDeclaration_decides hok,
        (context.scanDeclaration_overflows_iff hbase d).1 hstop⟩
    · rintro ⟨-, before, d, after, hsplit, hbefore, hfull⟩
      rw [hsplit]
      exact Scan.overflows_of_split context.scanDeclaration_decides hbefore
        (fun _ => (context.scanDeclaration_overflows_iff hbase d).2 hfull) after

end FileContext

/-! ### The variables that a walker declares -/

/-- The nodes that a call walks through. -/
def WalkerCall.walked : WalkerCall → List Node
  | .walk n => [n]
  | .parameter _ p => (p.child? .modifierList).toList
  | _ => []

/-- The names of the variables that are declared in parts of a tree. -/
def Node.variablesBelow (parts : List Node) : List Token :=
  (parts.flatMap descendants).flatMap variableNames

/-- The acts of a call declare the variables in the nodes that the call walks through. -/
theorem WalkerCall.filterMap_variableName?_acts (isClass : Node → Bool) (call : WalkerCall) :
    (call.acts isClass).filterMap WalkAct.variableName? = Node.variablesBelow call.walked := by
  unfold Node.variablesBelow
  cases call with
  | walk n =>
    rw [walked, List.flatMap_singleton]
    exact n.filterMap_variableName?_walkActs isClass
  | recordType type => exact type.filterMap_variableName?_typeActs isClass
  | parameter index p =>
    rw [acts, List.filterMap_append, List.filterMap_append, List.filterMap_flatMap,
      p.filterMap_variableName?_declaredTypeActs isClass, walked, List.flatMap_assoc]
    simp only [Node.filterMap_variableName?_walkActs]
    simp [WalkAct.variableName?]
  | seed indices => rfl

/-- A walker declares the variables in the parts that it walks through. -/
theorem Resolver.filterMap_variableName?_walkerActs (resolver : Resolver) (d : Declaration) :
    (resolver.walkerActs d).filterMap WalkAct.variableName? =
      Node.variablesBelow ((resolver.calls d).flatMap WalkerCall.walked) := by
  unfold walkerActs Node.variablesBelow
  rw [List.filterMap_flatMap, List.flatMap_assoc, List.flatMap_assoc]
  refine List.flatMap_congr fun call _ => ?_
  exact (call.filterMap_variableName?_acts resolver.isClass).trans List.flatMap_assoc

namespace Node

variable (n : Node)

/-- The child nodes before the first `=`. -/
def nodesBeforeEquals : List Node :=
  (n.items.takeWhile fun item => !decide (item.kind = .equals)).filterMap Item.node?

/-- The child nodes from the first `=` on. -/
def nodesFromEquals : List Node :=
  (n.items.dropWhile fun item => !decide (item.kind = .equals)).filterMap Item.node?

/-- Whether a field is initialized by its modifier list: this is the first node from the first `=`
on, and there is no modifier list before. -/
def initializedByModifiers : Bool :=
  (n.nodesBeforeEquals.find? fun c => decide (c.kind = .modifierList)).isNone &&
    n.nodesFromEquals.head?.any fun c => decide (c.kind = .modifierList)

/-- The child nodes are those before the first `=` and then those from it on. -/
theorem nodesBeforeEquals_append : n.nodesBeforeEquals ++ n.nodesFromEquals = n.childNodes := by
  rw [nodesBeforeEquals, nodesFromEquals, ← List.filterMap_append, List.takeWhile_append_dropWhile]
  rfl

/-- The initializer of a field is the first node from the first `=` on. -/
theorem initializer?_eq_head? : n.initializer? = n.nodesFromEquals.head? :=
  List.head?_filterMap.symm

variable {n}

/-- A field that is initialized by its modifier list has one node for both. -/
theorem child?_modifierList_eq_initializer? (h : n.initializedByModifiers = true) :
    n.child? .modifierList = n.initializer? := by
  rw [initializedByModifiers, Bool.and_eq_true, Option.isNone_iff_eq_none] at h
  obtain ⟨hbefore, hfirst⟩ := h
  rw [child?, ← nodesBeforeEquals_append, List.find?_append, hbefore, initializer?_eq_head?]
  cases hback : n.nodesFromEquals with
  | nil => rfl
  | cons c rest =>
    rw [hback] at hfirst
    have hc : decide (c.kind = .modifierList) = true := hfirst
    rw [List.find?_cons, hc]
    rfl

/-- The modifier list of a field and its initializer are different children otherwise. -/
theorem modifiers_append_initializer_subperm (h : n.initializedByModifiers = false) :
    ((n.child? .modifierList).toList ++ n.initializer?.toList).Subperm n.childNodes := by
  rw [child?, initializer?_eq_head?, ← nodesBeforeEquals_append, List.find?_append]
  rw [initializedByModifiers] at h
  cases hbefore : n.nodesBeforeEquals.find? fun c => decide (c.kind = .modifierList) with
  | some m =>
    have hm : [m].Sublist n.nodesBeforeEquals :=
      List.singleton_sublist.2 (List.mem_of_find?_eq_some hbefore)
    have hhead : n.nodesFromEquals.head?.toList.Sublist n.nodesFromEquals := by
      cases n.nodesFromEquals with
      | nil => exact List.Sublist.refl _
      | cons c rest => exact List.singleton_sublist.2 List.mem_cons_self
    exact (hm.append hhead).subperm
  | none =>
    refine List.Subperm.trans ?_ (List.sublist_append_right _ _).subperm
    rw [Option.none_or]
    cases hback : n.nodesFromEquals with
    | nil => exact List.nil_subperm
    | cons c rest =>
      rw [hbefore, hback] at h
      have hc : decide (c.kind = .modifierList) = false := h
      rw [List.find?_cons, hc]
      dsimp only
      -- the initializer comes first, and a modifier list stands behind it
      refine List.perm_append_comm.subperm.trans ?_
      refine List.Sublist.subperm (List.Sublist.cons_cons c ?_)
      cases hrest : rest.find? fun c => decide (c.kind = .modifierList) with
      | none => exact List.nil_sublist _
      | some m => exact List.singleton_sublist.2 (List.mem_of_find?_eq_some hrest)

end Node

/-- The nodes of a declaration that its walker goes through a second time. -/
def Declaration.walkedTwice : Declaration → List Node
  | .field _ n => if n.initializedByModifiers then (n.child? .modifierList).toList else []
  | _ => []

/-- Calls that walk through parts walk through these parts. -/
theorem flatMap_walked_map_walk (parts : List Node) :
    (parts.map WalkerCall.walk).flatMap WalkerCall.walked = parts := by
  rw [List.flatMap_map]
  exact List.flatMap_singleton' parts

/-- Recording a type walks through nothing. -/
theorem Node.flatMap_walked_typeCalls (n : Node) : n.typeCalls.flatMap WalkerCall.walked = [] := by
  unfold typeCalls
  cases n.child? .type <;> rfl

/-- The calls for a method walk through its walked parts. -/
theorem Node.flatMap_walked_methodCalls (n : Node) :
    n.methodCalls.flatMap WalkerCall.walked = n.walkedParts := by
  have hparameters :
      (n.parameters.zipIdx.map fun p => WalkerCall.parameter p.2 p.1).flatMap WalkerCall.walked =
        n.parameters.flatMap fun p => (p.child? .modifierList).toList := by
    conv_rhs => rw [← List.zipIdx_map_fst 0 n.parameters]
    rw [List.flatMap_map, List.flatMap_map]
    rfl
  unfold methodCalls walkedParts partCalls
  simp only [List.flatMap_append, flatMap_walked_map_walk, flatMap_walked_typeCalls, hparameters,
    List.nil_append, List.append_assoc]

/-- A walker goes through different parts of its declaration, but for those that it goes through
twice. -/
theorem Resolver.walked_subperm (resolver : Resolver) (d : Declaration) :
    (((resolver.calls d).flatMap WalkerCall.walked).flatMap Node.descendants).Subperm
      (d.node.descendants ++ d.walkedTwice.flatMap Node.descendants) := by
  have hchildren {n : Node} {parts : List Node} (h : parts.Subperm n.childNodes) :
      (parts.flatMap Node.descendants).Subperm n.descendants :=
    (List.sublist_cons_self n _).subperm.trans (Node.descendants_of_parts_subperm h)
  cases d with
  | classDecl qualifier n =>
    refine List.Subperm.trans ?_ (List.sublist_append_left _ _).subperm
    rw [calls]
    split
    · rw [flatMap_walked_map_walk]
      exact hchildren List.filter_sublist.subperm
    · exact List.nil_subperm
  | enumConstant owner n =>
    refine List.Subperm.trans ?_ (List.sublist_append_left _ _).subperm
    rw [calls]
    split
    · rw [flatMap_walked_map_walk]
      exact hchildren (List.Subperm.refl _)
    · exact List.nil_subperm
  | method owner n =>
    refine List.Subperm.trans ?_ (List.sublist_append_left _ _).subperm
    rw [calls]
    split
    · rw [n.flatMap_walked_methodCalls]
      exact n.descendants_walkedParts_subperm
    · exact List.nil_subperm
  | initializer owner n =>
    show ([n].flatMap Node.descendants).Subperm (n.descendants ++ [])
    rw [List.flatMap_singleton, List.append_nil]
  | field owner n =>
    have hwalked : (resolver.calls (.field owner n)).flatMap WalkerCall.walked =
        (n.child? .modifierList).toList ++ n.initializer?.toList := by
      rw [calls, Node.fieldCalls, Node.partCalls, List.flatMap_append, List.flatMap_append,
        flatMap_walked_map_walk, flatMap_walked_map_walk, n.flatMap_walked_typeCalls,
        List.nil_append]
    rw [hwalked, Declaration.walkedTwice]
    cases h : n.initializedByModifiers with
    | false =>
      refine List.Subperm.trans ?_ (List.sublist_append_left _ _).subperm
      exact hchildren (Node.modifiers_append_initializer_subperm h)
    | true =>
      have hmodifiers : (n.child? .modifierList).toList.Subperm n.childNodes := by
        cases hm : n.child? .modifierList with
        | none => exact List.nil_subperm
        | some m =>
          exact (List.singleton_sublist.2 (Node.mem_childNodes_of_child? hm)).subperm
      -- the initializer is the modifier list, whose second walk is set against `walkedTwice`
      rw [← Node.child?_modifierList_eq_initializer? h, List.flatMap_append]
      exact (hchildren hmodifiers).append (List.Subperm.refl _)

/-! ### Bounds by the size of the tree -/

/-- What one element of a list gives is part of what the list gives. -/
theorem sublist_flatMap_of_mem {α β : Type} (f : α → List β) {x : α} {xs : List α} (h : x ∈ xs) :
    (f x).Sublist (xs.flatMap f) := by
  have hone := (List.singleton_sublist.2 h).flatMap f
  rwa [List.flatMap_singleton] at hone

namespace Node

variable {root n : Node}

/-- The nodes below a node of the tree are different nodes of the tree. -/
theorem descendants_sublist_of_mem (h : n ∈ root.descendants) :
    n.descendants.Sublist root.descendants := by
  induction root using Node.induction with
  | step root ih =>
    rw [root.descendants_eq] at h
    rcases List.mem_cons.1 h with rfl | hbelow
    · exact List.Sublist.refl _
    · obtain ⟨c, hc, hn⟩ := List.mem_flatMap.1 hbelow
      rw [root.descendants_eq]
      exact ((ih c hc hn).trans (sublist_flatMap_of_mem descendants hc)).cons root

/-- A node below the root has fewer children than there are nodes below the root. -/
theorem length_childNodes_lt (h : n ∈ root.descendants) :
    n.childNodes.length < root.descendants.length := by
  rw [root.perm_descendants.length_eq, List.length_cons]
  exact Nat.lt_succ_of_le (sublist_flatMap_of_mem childNodes h).length_le

/-- The parameters of a method are fewer than the nodes in the tree. -/
theorem length_parameters_lt (h : n ∈ root.descendants) :
    n.parameters.length < root.descendants.length := by
  rw [parameters_eq]
  cases hlist : n.child? .parameterList with
  | none => exact List.length_pos_of_mem h
  | some list =>
    rw [Option.toList_some, List.flatMap_singleton]
    have hbelow := mem_descendants_of_child_below h (mem_childNodes_of_child? hlist)
    exact Nat.lt_of_le_of_lt List.filter_sublist.length_le (length_childNodes_lt hbelow)

/-- The names of the variables below the parts of a file that are walked twice, once for each
declaration that has such a part. -/
def variablesWalkedTwice (root : Node) : List Token :=
  variablesBelow (root.declarations.flatMap Declaration.walkedTwice)

/-- A walker declares no more variables than the tree has, with those below the parts that are
walked twice counted once more. -/
theorem length_walkerActs_le (resolver : Resolver) {d : Declaration} (hd : d ∈ root.declarations) :
    ((resolver.walkerActs d).filterMap WalkAct.variableName?).length ≤
      (root.descendants.flatMap variableNames).length + root.variablesWalkedTwice.length := by
  have htwice : (d.walkedTwice.flatMap descendants).Sublist
      ((root.declarations.flatMap Declaration.walkedTwice).flatMap descendants) :=
    (sublist_flatMap_of_mem Declaration.walkedTwice hd).flatMap descendants
  have hnode : d.node.descendants.Sublist root.descendants :=
    descendants_sublist_of_mem (mem_declarations_iff.1 hd).mem_descendants
  have hwalked := (resolver.walked_subperm d).trans (hnode.append htwice).subperm
  rw [resolver.filterMap_variableName?_walkerActs, variablesBelow, variablesWalkedTwice,
    variablesBelow, ← List.length_append, ← List.flatMap_append]
  exact (subperm_flatMap variableNames hwalked).length_le

end Node

/-- With an index for each of its variables, a walker uses up no counter. -/
theorem Options.not_usesUpCounter_of_le {options : Options} {resolver : Resolver}
    {acts : List WalkAct}
    (h : options.injectedBase + (acts.filterMap WalkAct.variableName?).length ≤
      IndexTable.counterLimit) :
    ¬ options.UsesUpCounter resolver acts := by
  rintro ⟨before, v, after, rfl, hname, -, hfull⟩
  have hfirst (region : Region) : options.firstIndex region ≤ options.injectedBase := by
    cases region with
    | normal => exact Nat.zero_le _
    | injected => exact Nat.le_refl _
  have hcount := List.count_le_length (a := options.regionBehind .normal before)
    (l := options.declaringRegions .normal before)
  rw [options.length_declaringRegions] at hcount
  -- the variable itself needs an index behind those of the variables before it
  obtain ⟨name, hname⟩ := Option.isSome_iff_exists.1 hname
  have hlength : ((before ++ .localVariable v :: after).filterMap WalkAct.variableName?).length =
      (before.filterMap WalkAct.variableName?).length +
        ((after.filterMap WalkAct.variableName?).length + 1) := by
    have hact : (WalkAct.localVariable v).variableName? = some name := hname
    rw [List.filterMap_append, List.filterMap_cons, hact, List.length_append, List.length_cons]
  have hregion := hfirst (options.regionBehind .normal before)
  dsimp only at hfull
  omega

/-! ### Files -/

/-- The class `A` with a field `f` whose modifier list stands behind its `=`. The list declares `v`
and `w` behind a region marker. -/
def initializedByModifiersTree : Tree :=
  ⟨⟨0⟩, .sourceFile,
    [.node .classDecl
      [.token .ident "A", .token .whitespace " ",
        .node .field
          [.token .equals "=",
            .node .modifierList
              [.token .lineComment "// x start", .token .whitespace "\n",
                .node .declarationStatement
                  [.node .localVariable [.token .ident "v"], .token .whitespace " ",
                    .node .localVariable [.token .ident "w"]]],
            .token .whitespace " ", .token .ident "f"]]]⟩

/-- An index for each variable of the tree is not enough: the field needs four for its two. -/
theorem not_forall_extract_ne_indexOverflow :
    ¬ ∀ (file : String) (tree : Tree) (resolver : Resolver) (options : Options),
      tree.root.text.utf8ByteSize < Word.limit → tree.root.descendants.length < Word.limit →
      options.injectedBase + (tree.root.descendants.flatMap Node.variableNodes).length ≤
        IndexTable.counterLimit →
      (extract file tree resolver options).result ≠ .error .indexOverflow := by
  intro h
  refine h "A.java" initializedByModifiersTree Bindings.empty.resolver
    { injectedBase := 4294967292 } ?_ ?_ ?_ ?_ <;> decide +kernel

section Extract

variable (file : String) (tree : Tree) (resolver : Resolver) (options : Options)

/-- In a tree whose bytes and nodes can be counted in a word, all positions have offsets and all
parameters have numbers, so nothing but the index of a variable can be missing. It is missing
exactly if a well-formed file has a declaration whose walker uses up a counter, behind declarations
that resolve. This does not happen if there is an index for each variable with a name, and a second
one for those that are walked twice. -/
theorem extract_overflows_iff (hbase : options.injectedBase ≤ IndexTable.counterLimit)
    (htext : tree.root.text.utf8ByteSize < Word.limit)
    (hnodes : tree.root.descendants.length < Word.limit) :
    (∃ offsets, OffsetMap.ofText? tree.root.text options.encoding = some offsets ∧
      offsets = (FileContext.ofText file tree.root.text resolver options).offsets ∧
      ∀ byte, offsets.offset? byte = some (offsets.offset byte)) ∧
    (∀ n ∈ tree.root.descendants, n.parameters.length + 1 < Word.limit) ∧
    ((extract file tree resolver options).result = .error .indexOverflow ↔
      tree.root.malformation? = none ∧
      ∃ before d after, tree.root.declarations = before ++ d :: after ∧
        (∀ e ∈ before, resolver.ResolvesDeclaration e) ∧
        options.UsesUpCounter resolver (resolver.walkerActs d)) ∧
    (options.injectedBase + ((tree.root.descendants.flatMap Node.variableNames).length +
        tree.root.variablesWalkedTwice.length) ≤ IndexTable.counterLimit →
      (extract file tree resolver options).result ≠ .error .indexOverflow) := by
  let context := FileContext.ofText file tree.root.text resolver options
  have hresult : (extract file tree resolver options).result =
      ((context.scanRoot tree.root).run ()).result := ExtractedFile.result_ofOutcome file _
  have hoverflows := context.scanRoot_overflows_iff hbase tree.root
  rw [← hresult] at hoverflows
  refine ⟨⟨context.offsets, ?_, rfl, ?_⟩, ?_, hoverflows, ?_⟩
  · exact OffsetMap.ofText?_eq_some options.encoding htext
  · exact OffsetMap.offset?_ofText tree.root.text options.encoding
  · intro n hn
    exact Nat.lt_of_le_of_lt (Node.length_parameters_lt hn) hnodes
  · intro henough hstop
    obtain ⟨-, before, d, after, hsplit, -, hfull⟩ := hoverflows.1 hstop
    have hd : d ∈ tree.root.declarations := by
      rw [hsplit]
      exact List.mem_append_right _ List.mem_cons_self
    -- one walker declares no more than all the names, and those walked twice once more
    have hnames := Node.length_walkerActs_le resolver hd
    exact Options.not_usesUpCounter_of_le
      (Nat.le_trans (Nat.add_le_add_left hnames _) henough) hfull

/-- The field needs four indices: with three left a counter is used up, with four it is not. -/
theorem extract_overflows_iff_initializedByModifiers :
    let tree := initializedByModifiersTree
    let resolver := Bindings.empty.resolver
    (∃ d ∈ tree.root.declarations,
      { injectedBase := 4294967292 : Options }.UsesUpCounter resolver (resolver.walkerActs d)) ∧
    (extract "A.java" tree resolver { injectedBase := 4294967291 }).result ≠
      .error .indexOverflow := by
  intro tree resolver
  have hthree := extract_overflows_iff "A.java" tree resolver { injectedBase := 4294967292 }
    (by decide) (by decide +kernel) (by decide +kernel)
  have hfour := extract_overflows_iff "A.java" tree resolver { injectedBase := 4294967291 }
    (by decide) (by decide +kernel) (by decide +kernel)
  constructor
  · obtain ⟨-, before, d, after, hsplit, -, hfull⟩ := hthree.2.2.1.1 (by decide +kernel)
    refine ⟨d, ?_, hfull⟩
    rw [hsplit]
    exact List.mem_append_right _ List.mem_cons_self
  · exact hfour.2.2.2 (by decide +kernel)

end Extract

end SymbolRanges

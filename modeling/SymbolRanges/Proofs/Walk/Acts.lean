import SymbolRanges.Proofs.Walk.Declarations

/-!
# The acts of a walk

A visit of a declaration statement may declare one variable and fail at the type of the next, so a
walk that fails can have done half a visit. Its acts are the parts that are done wholly or not at
all: it passes a token, records a reference, declares one variable, and so on. `Scope.walk_eq_acts`
says that a walk performs its acts in turn.

What an act does to the state of the walk is said by `Scope.act_leaves` for all acts but the
declaration of a variable, and by `Scope.run_nameVariable` for that one. `Scope.act_reportsOnly`
says which diagnostics each act can report.
-/

set_option autoImplicit false

namespace SymbolRanges

/-- The smallest things that a walker does. -/
inductive WalkAct where
  /-- Passes a token, which may be a marker. -/
  | token (t : Token)
  /-- Records a reference. -/
  | reference (reference : Node)
  /-- Records a reference of a declared type. -/
  | typeReference (reference : Node)
  /-- Declares a local variable whose type is recorded. -/
  | localVariable (declaration : Node)
  /-- Passes over an element of a declaration statement that is not a variable. -/
  | passOver (element : Node)
  /-- Declares the parameter of the method with a given index. -/
  | parameter (index : Nat) (declaration : Node)
  /-- Takes over the indices of parameters. -/
  | seed (indices : List (Span × Nat))

namespace Scope

variable (scope : Scope)

/-- Declares the name of a local variable. -/
def nameVariable (declaration : Node) : Walk Unit :=
  match declaration.nameToken? with
  | none => scope.warn declaration.start (.namelessVariable "local variable")
  | some name => do
    let index ← scope.assignIndex name
    scope.record name.span (.localVariable (scope.localName name.text (some index)))

/-- Warns about an element of a declaration statement that is not a variable. -/
def passOver (element : Node) : Walk Unit :=
  match element.kind with
  | .classDecl => scope.warn element.start .localClass
  | kind => scope.warn element.start (.unknownDeclaration kind)

/-- Performs an act. -/
def act : WalkAct → Walk Unit
  | .token t => scope.switchRegion t
  | .reference reference => scope.recordReference reference
  | .typeReference reference => scope.recordTypeReference reference
  | .localVariable declaration => scope.nameVariable declaration
  | .passOver element => scope.passOver element
  | .parameter index declaration => scope.nameParameter index declaration
  | .seed indices => seedParameters indices

end Scope

/-! ### The acts of each part -/

namespace Node

variable (isClass : Node → Bool)

/-- The acts that record a type. -/
def typeActs (type : Node) : List WalkAct := (type.typeReferences isClass).map .typeReference

/-- The acts that record the type of a declaration, if it has one. -/
def declaredTypeActs (declaration : Node) : List WalkAct :=
  (declaration.child? .type).toList.flatMap (typeActs isClass)

/-- The acts that declare a variable: its type, and then its name. -/
def variableActs (declaration : Node) : List WalkAct :=
  declaration.declaredTypeActs isClass ++ [.localVariable declaration]

/-- The acts of an element of a declaration statement. -/
def elementActs (element : Node) : List WalkAct :=
  if element.kind = .localVariable then element.variableActs isClass else [.passOver element]

/-- The acts of a visit of a node, without what is below it. -/
def visitActs (n : Node) : List WalkAct :=
  match n.kind with
  | .declarationStatement => n.declared.flatMap (elementActs isClass)
  | .catchSection | .foreachStatement => (n.child? .parameter).toList.flatMap (variableActs isClass)
  | .reference => [.reference n]
  | _ => []

end Node

namespace Node

variable {isClass : Node → Bool} {n v : Node} {a : WalkAct}

/-- A variable is declared by acts that record its type and one that declares its name. -/
theorem mem_variableActs (h : a ∈ v.variableActs isClass) :
    a = .localVariable v ∨ ∃ type, v.child? .type = some type ∧
      ∃ reference ∈ type.typeReferences isClass, a = .typeReference reference := by
  rcases List.mem_append.1 h with htype | hname
  · obtain ⟨type, hchild, hmem⟩ := List.mem_flatMap.1 htype
    obtain ⟨reference, hreference, rfl⟩ := List.mem_map.1 hmem
    exact .inr ⟨type, Option.mem_toList.1 hchild, reference, hreference, rfl⟩
  · exact .inl (List.mem_singleton.1 hname)

/-- All that the visit of a node can do: record the node as a reference, declare its variables, or
pass over something in a declaration statement. -/
theorem mem_visitActs (h : a ∈ n.visitActs isClass) :
    (n.kind = .reference ∧ a = .reference n) ∨
    (∃ v ∈ n.variableNodes, a ∈ v.variableActs isClass) ∨ ∃ element, a = .passOver element := by
  have hfirst (hk : n.kind = .catchSection ∨ n.kind = .foreachStatement)
      (h : a ∈ (n.child? .parameter).toList.flatMap (variableActs isClass)) :
      ∃ v ∈ n.variableNodes, a ∈ v.variableActs isClass := by
    rw [variableNodes_ofParameter hk]
    exact List.mem_flatMap.1 h
  unfold visitActs at h
  split at h
  · next hk =>
    obtain ⟨element, helement, hmem⟩ := List.mem_flatMap.1 h
    unfold elementActs at hmem
    split at hmem
    · next hlocal =>
      refine .inr (.inl ⟨element, ?_, hmem⟩)
      rw [variableNodes_declarationStatement hk]
      exact List.mem_filter.2 ⟨(List.mem_filter.1 helement).1, decide_eq_true hlocal⟩
    · exact .inr (.inr ⟨element, List.mem_singleton.1 hmem⟩)
  · next hk => exact .inr (.inl (hfirst (.inl hk) h))
  · next hk => exact .inr (.inl (hfirst (.inr hk) h))
  · next hk => exact .inl ⟨hk, List.mem_singleton.1 h⟩
  · cases h

end Node

/-- The acts of a visit of a node or token. -/
def Item.acts (isClass : Node → Bool) : Item → List WalkAct
  | .node n => n.visitActs isClass
  | .token t => [.token t]

/-- The acts of a walk through a node. -/
def Node.walkActs (isClass : Node → Bool) (n : Node) : List WalkAct :=
  n.preorder.flatMap (Item.acts isClass)

namespace Scan

variable {σ α : Type}

/-- A loop over one element performs its step. -/
theorem forM_singleton (f : α → Scan σ Unit) (x : α) : [x].forM f = f x := by
  rw [forM_cons, forM_nil]
  exact bind_pure (f x)

/-- A loop over an optional element performs its step if it is there. -/
theorem forM_toList (f : α → Scan σ Unit) (x? : Option α) :
    x?.toList.forM f = match x? with
      | some x => f x
      | none => pure () := by
  cases x? with
  | none => rfl
  | some x => exact forM_singleton f x

end Scan

namespace Scope

variable (scope : Scope)

/-- Recording a type is performing its acts. -/
theorem recordType_eq_acts (type : Node) :
    scope.recordType type = (type.typeActs scope.resolver.isClass).forM scope.act := by
  unfold recordType Node.typeActs
  rw [Scan.forM_map]
  rfl

/-- Recording the type of a declaration is performing its acts. -/
theorem recordDeclaredType_eq_acts (declaration : Node) :
    scope.recordDeclaredType declaration =
      (declaration.declaredTypeActs scope.resolver.isClass).forM scope.act := by
  unfold recordDeclaredType Node.declaredTypeActs
  rw [Scan.forM_flatMap, Scan.forM_toList]
  cases declaration.child? .type with
  | none => rfl
  | some type => exact scope.recordType_eq_acts type

/-- Declaring a variable is performing the acts of its type and of its name. -/
theorem introduceVariable_eq_acts (declaration : Node) :
    scope.introduceVariable declaration =
      (declaration.variableActs scope.resolver.isClass).forM scope.act := by
  unfold Node.variableActs
  rw [Scan.forM_append, Scan.forM_singleton, ← recordDeclaredType_eq_acts]
  rfl

/-- Declaring an element of a declaration statement is performing its acts. -/
theorem introduceElement_eq_acts (element : Node) :
    scope.introduceElement element =
      (element.elementActs scope.resolver.isClass).forM scope.act := by
  unfold introduceElement Node.elementActs
  by_cases hlocal : element.kind = .localVariable
  · rw [if_pos hlocal, hlocal, ← introduceVariable_eq_acts]
  · rw [if_neg hlocal, Scan.forM_singleton]
    show _ = scope.passOver element
    unfold passOver
    cases hk : element.kind with
    | localVariable => exact absurd hk hlocal
    | _ => rfl

/-- Visiting an item is performing its acts. -/
theorem visit_eq_acts (item : Item) :
    scope.visit item = (item.acts scope.resolver.isClass).forM scope.act := by
  cases item with
  | token t => exact (Scan.forM_singleton scope.act (.token t)).symm
  | node n =>
    show scope.visitNode n = (n.visitActs scope.resolver.isClass).forM scope.act
    unfold visitNode Node.visitActs
    cases n.kind with
    | declarationStatement =>
      dsimp only
      rw [Scan.forM_flatMap]
      congr
      funext element
      exact scope.introduceElement_eq_acts element
    | catchSection | foreachStatement =>
      dsimp only
      rw [Scan.forM_flatMap, Scan.forM_toList]
      cases n.child? .parameter with
      | none => rfl
      | some parameter => exact scope.introduceVariable_eq_acts parameter
    | reference => exact (Scan.forM_singleton scope.act (.reference n)).symm
    | _ => rfl

/-- A walk performs its acts in turn. -/
theorem walk_eq_acts (n : Node) :
    scope.walk n = (n.walkActs scope.resolver.isClass).forM scope.act := by
  unfold walk Node.walkActs
  rw [Scan.forM_flatMap]
  congr
  funext item
  exact scope.visit_eq_acts item

end Scope

/-! ### What an act reports -/

/-- Everything that a scan reports has a property. -/
def Scan.ReportsOnly {σ α : Type} (P : Diagnostic → Prop) (x : Scan σ α) : Prop :=
  ∀ s, ∀ d ∈ Journal.diagnostics (x.run s).journal, P d

namespace Scan.ReportsOnly

variable {σ α β : Type} {P Q : Diagnostic → Prop}

/-- A scan that writes no diagnostics reports nothing. -/
theorem of_nil {x : Scan σ α} (h : ∀ s, Journal.diagnostics (x.run s).journal = []) :
    x.ReportsOnly P := by
  intro s d hd
  rw [h s] at hd
  cases hd

/-- A weaker property holds of all reports as well. -/
theorem mono {x : Scan σ α} (hx : x.ReportsOnly P) (h : ∀ d, P d → Q d) : x.ReportsOnly Q :=
  fun s d hd => h d (hx s d hd)

/-- Two scans in a row report only what each of them reports. -/
theorem bind {x : Scan σ α} {f : α → Scan σ β} (hx : x.ReportsOnly P)
    (hf : ∀ a, (f a).ReportsOnly P) : (x >>= f).ReportsOnly P := by
  intro s d hd
  rw [run_bind, Outcome.andThen] at hd
  cases hresult : (x.run s).result with
  | error stop =>
    rw [hresult] at hd
    exact hx s d hd
  | ok a =>
    simp only [hresult, Journal.diagnostics_append, List.mem_append] at hd
    rcases hd with hfirst | hnext
    · exact hx s d hfirst
    · exact hf a _ d hnext

/-- A loop reports only what its steps report. -/
theorem forM {f : α → Scan σ Unit} (xs : List α) (h : ∀ x ∈ xs, (f x).ReportsOnly P) :
    (xs.forM f).ReportsOnly P := by
  induction xs with
  | nil => exact of_nil fun _ => rfl
  | cons x rest ih =>
    have hrest := ih fun y hy => h y (List.mem_cons_of_mem x hy)
    exact (h x List.mem_cons_self).bind fun _ => hrest

end Scan.ReportsOnly

/-- The codes of the diagnostics that an act can report. -/
def WalkAct.codes : WalkAct → List Code
  | .token _ => []
  | .reference _ =>
    [.unresolvedReference, .missingLocalIndex, .missingParameterIndex, .unsupportedTarget]
  | .typeReference _ => [.unresolvedReference]
  | .localVariable _ => [.indexCollision, .missingName]
  | .passOver _ => [.unsupportedDeclaration]
  | .parameter _ _ => [.missingName]
  | .seed _ => []

namespace Scope

variable (scope : Scope)

/-- What a declaration of a variable with a name does: it takes the next index of the region and
records the variable, after a warning if this is the first collision. When the counter is used up
it does nothing and stops. -/
theorem run_nameVariable {declaration : Node} {name : Token}
    (hname : declaration.nameToken? = some name) (s : WalkState) :
    (scope.nameVariable declaration).run s =
      if s.locals.next s.region < IndexTable.counterLimit then
        ⟨(if scope.collides s (s.locals.next s.region) then
            [.diagnostic (scope.warningAt name.start scope.describe (.indexCollision
              (s.locals.next s.region) name.text scope.options.injectedBase))] else []) ++
          [.record (scope.variableRecord name (s.locals.next s.region))],
          { s with
            locals := s.locals.put name.span s.region
            collided := s.collided || scope.collides s (s.locals.next s.region) }, .ok ()⟩
      else ⟨[], s, .error .indexOverflow⟩ := by
  have hget : ((Scan.get : Walk WalkState).run s).result = .ok s := rfl
  unfold nameVariable assignIndex
  rw [hname]
  simp only [bind_assoc]
  rw [Scan.run_bind_of_ok hget]
  simp only [Scan.run_get, List.nil_append]
  by_cases hlt : s.locals.next s.region < IndexTable.counterLimit
  · have hassign : s.locals.assign? name.span s.region =
        some (s.locals.next s.region, s.locals.put name.span s.region) := if_pos hlt
    rw [hassign, if_pos hlt]
    by_cases hcollides : scope.collides s (s.locals.next s.region) = true
    · simp only [hcollides, if_true]
      rfl
    · simp only [hcollides, if_false, Bool.false_eq_true]
      rfl
  · have hassign : s.locals.assign? name.span s.region = none := if_neg hlt
    rw [hassign, if_neg hlt]
    rfl

/-- A variable without a name has a warning and no index. -/
theorem run_nameVariable_of_none {declaration : Node} (hname : declaration.nameToken? = none)
    (s : WalkState) :
    (scope.nameVariable declaration).run s =
      ⟨[.diagnostic (scope.warningAt declaration.start scope.describe
        (.namelessVariable "local variable"))], s, .ok ()⟩ := by
  unfold nameVariable
  rw [hname]
  rfl

/-- A warning is reported under its own code. -/
theorem warn_reportsOnly (position : Nat) (warning : Warning) :
    (scope.warn position warning).ReportsOnly fun d => d.code = warning.code := by
  intro s d hd
  rw [List.mem_singleton.1 hd]
  rfl

/-- Of a reference that points somewhere, only a missing index or an unknown kind is reported. -/
theorem recordTarget_reportsOnly (token : Token) (target : Target) :
    (scope.recordTarget token target).ReportsOnly fun d =>
      d.code ∈ [Code.missingLocalIndex, .missingParameterIndex, .unsupportedTarget] := by
  have hwarn {position : Nat} {warning : Warning}
      (h : warning.code ∈ [Code.missingLocalIndex, .missingParameterIndex, .unsupportedTarget]) :
      (scope.warn position warning).ReportsOnly fun d =>
        d.code ∈ [Code.missingLocalIndex, .missingParameterIndex, .unsupportedTarget] :=
    (scope.warn_reportsOnly position warning).mono fun d hd => hd ▸ h
  have hlocal (declaration : Span) (name : String) :
      (scope.recordLocalReference token declaration name).ReportsOnly fun d =>
        d.code ∈ [Code.missingLocalIndex, .missingParameterIndex, .unsupportedTarget] := by
    intro s d hd
    rw [run_recordLocalReference] at hd
    split at hd
    · rw [List.mem_singleton.1 hd]
      exact List.mem_cons_self
    · cases hd
  unfold recordTarget
  split
  · exact .of_nil fun _ => rfl
  · exact .of_nil fun _ => rfl
  · exact .of_nil fun _ => rfl
  · exact .of_nil fun _ => rfl
  · exact hlocal _ _
  · intro s d hd
    rw [run_recordParameterReference] at hd
    split at hd
    · rw [List.mem_singleton.1 hd]
      exact List.mem_cons_of_mem _ List.mem_cons_self
    · cases hd
  · exact hlocal _ _
  · exact hlocal _ _
  · exact hwarn (by simp [Warning.code])
  · exact hwarn (by simp [Warning.code])

/-- An act reports nothing but diagnostics with its codes. -/
theorem act_reportsOnly (a : WalkAct) : (scope.act a).ReportsOnly fun d => d.code ∈ a.codes := by
  cases a with
  | token t =>
    show (scope.switchRegion t).ReportsOnly _
    unfold switchRegion
    split
    · split
      · exact .of_nil fun _ => rfl
      · refine Scan.ReportsOnly.bind (.of_nil fun _ => rfl) fun state => ?_
        dsimp only
        split
        · exact Scan.ReportsOnly.bind (.of_nil fun _ => rfl) fun _ => .of_nil fun _ => rfl
        · exact .of_nil fun _ => rfl
    · exact .of_nil fun _ => rfl
  | reference n =>
    show (scope.recordReference n).ReportsOnly _
    unfold recordReference
    split
    · exact .of_nil fun _ => rfl
    · split
      · intro s d hd
        rw [List.mem_singleton.1 hd]
        exact List.mem_cons_self
      · exact (scope.recordTarget_reportsOnly _ _).mono fun d hd => List.mem_cons_of_mem _ hd
  | typeReference n =>
    show (scope.recordTypeReference n).ReportsOnly _
    unfold recordTypeReference
    split
    · intro s d hd
      rw [List.mem_singleton.1 hd]
      exact List.mem_cons_self
    · split <;> exact .of_nil fun _ => rfl
    · exact .of_nil fun _ => rfl
  | localVariable declaration =>
    intro s d hd
    show d.code ∈ [Code.indexCollision, .missingName]
    cases hname : declaration.nameToken? with
    | none =>
      rw [act, run_nameVariable_of_none scope hname] at hd
      rw [List.mem_singleton.1 hd]
      simp [FileContext.warningAt, Warning.code]
    | some name =>
      rw [act, run_nameVariable scope hname] at hd
      split at hd
      · split at hd
        · rw [List.mem_singleton.1 hd]
          exact List.mem_cons_self
        · cases hd
      · cases hd
  | passOver element =>
    show (scope.passOver element).ReportsOnly _
    unfold passOver
    split
    all_goals exact (scope.warn_reportsOnly _ _).mono fun d hd => List.mem_singleton.2 hd
  | parameter index declaration =>
    show (scope.nameParameter index declaration).ReportsOnly _
    unfold nameParameter
    split
    · exact (scope.warn_reportsOnly _ _).mono fun d hd => List.mem_singleton.2 hd
    · exact .of_nil fun _ => rfl
  | seed indices => exact .of_nil fun _ => rfl

end Scope

/-! ### What an act leaves as it is -/

/-- The region that an act switches to, if it passes a marker comment. -/
def WalkAct.marker? (options : Options) : WalkAct → Option Region
  | .token t => (Item.token t).marker? options
  | _ => none

/-- Whether an act declares a local variable. -/
def WalkAct.declaresVariable : WalkAct → Bool
  | .localVariable _ => true
  | _ => false

/-- An act that declares no local variable hands out no index, and switches the region only at a
marker. -/
theorem Scope.act_leaves (scope : Scope) {a : WalkAct} (h : a.declaresVariable = false)
    (s : WalkState) :
    ((scope.act a).run s).state.locals = s.locals ∧
    ((scope.act a).run s).state.collided = s.collided ∧
    ((scope.act a).run s).state.region = (a.marker? scope.options).getD s.region := by
  cases a with
  | token t =>
    rw [act, (scope.run_switchRegion t s).1]
    exact ⟨rfl, rfl, rfl⟩
  | reference n =>
    rw [act, scope.state_recordReference n s]
    exact ⟨rfl, rfl, rfl⟩
  | typeReference n =>
    rw [act, (scope.recordTypeReference_quiet n s).1]
    exact ⟨rfl, rfl, rfl⟩
  | localVariable declaration => cases h
  | passOver element =>
    rw [act, passOver]
    split <;> exact ⟨rfl, rfl, rfl⟩
  | parameter index declaration =>
    rw [act, (scope.run_nameParameter index declaration s).1]
    exact ⟨rfl, rfl, rfl⟩
  | seed indices => exact ⟨rfl, rfl, rfl⟩

end SymbolRanges

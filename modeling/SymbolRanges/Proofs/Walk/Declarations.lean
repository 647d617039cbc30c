import Mathlib.Control.Monad.Basic
import SymbolRanges.Proofs.Walk.Numbering
import SymbolRanges.Proofs.Walk.Steps

/-!
# What a walk declares

What each step of a walk does to its state, and which declarations it records. A declaration is
recorded as a local variable by a step that visits no reference. `Scope.perform_advances` says what
one step does, and `Scope.run_forM_perform` what any number of steps do: the region, the indices
and the parameters that a walk has reached are read off its steps, and so are the declarations that
it has recorded.

`walk_numbers_variables` is the result: a walk that succeeds records each named variable of its
code once, with its number.
-/

set_option autoImplicit false

namespace SymbolRanges

/-- Whether an identity is that of a local variable. -/
def Identity.isLocalVariable : Identity → Bool
  | .localVariable _ => true
  | _ => false

/-- The records of local variables in a journal. -/
def Journal.localRecords (journal : Journal) : List Record :=
  (Journal.records journal).filter fun r => r.identity.isLocalVariable

/-- The declarations of local variables that a visit recorded: what is recorded as a local variable
and not at a reference. -/
def Visit.declarationRecords (v : Visit WalkStep) : List Record :=
  if v.step.visitsReference then [] else Journal.localRecords v.journal

/-- The record of the declaration of a local variable. -/
def Scope.variableRecord (scope : Scope) (name : Token) (index : Nat) : Record :=
  scope.recordAt name.span (.localVariable (scope.localName name.text (some index)))

/-- Journals in a row have their records of local variables in a row. -/
@[simp] theorem Journal.localRecords_append (xs ys : Journal) :
    localRecords (xs ++ ys) = localRecords xs ++ localRecords ys := by
  simp [localRecords]

/-! ### Scans that declare nothing -/

namespace Scan

variable {α β : Type}

/-- A scan that keeps the state of a walk and records no local variable. -/
def Quiet (x : Walk α) : Prop :=
  ∀ s, (x.run s).state = s ∧ Journal.localRecords (x.run s).journal = []

namespace Quiet

/-- Giving a value is quiet. -/
theorem pure (a : α) : Quiet (Pure.pure a) := fun _ => ⟨rfl, rfl⟩

/-- Writing an entry is quiet if the entry records no local variable. -/
theorem write {entry : Entry} (h : Journal.localRecords [entry] = []) : Quiet (Scan.write entry) :=
  fun _ => ⟨rfl, h⟩

/-- Failing is quiet. -/
theorem fail (failure : FileFailure) (message : String) :
    Quiet (Scan.fail failure message : Walk α) := fun _ => ⟨rfl, rfl⟩

/-- Two quiet scans in a row are quiet. -/
theorem bind {x : Walk α} {f : α → Walk β} (hx : Quiet x) (hf : ∀ a, Quiet (f a)) :
    Quiet (x >>= f) := by
  intro s
  obtain ⟨hstate, hrecords⟩ := hx s
  rw [run_bind, Outcome.andThen]
  cases h : (x.run s).result with
  | error stop => exact ⟨hstate, hrecords⟩
  | ok a =>
    obtain ⟨hstate', hrecords'⟩ := hf a (x.run s).state
    refine ⟨hstate'.trans hstate, ?_⟩
    rw [Journal.localRecords_append, hrecords, hrecords', List.append_nil]

/-- A loop of quiet steps is quiet. -/
theorem forM {f : α → Walk Unit} (h : ∀ x, Quiet (f x)) (xs : List α) : Quiet (xs.forM f) := by
  induction xs with
  | nil => exact pure ()
  | cons x rest ih => exact (h x).bind fun _ => ih

end Quiet

end Scan

namespace Scope

variable (scope : Scope)

/-- Warning is quiet. -/
theorem warn_quiet (position : Nat) (warning : Warning) :
    Scan.Quiet (scope.warn position warning) :=
  Scan.Quiet.write rfl

/-- Recording a reference of a declared type is quiet. -/
theorem recordTypeReference_quiet (reference : Node) :
    Scan.Quiet (scope.recordTypeReference reference) := by
  unfold recordTypeReference
  split
  · exact Scan.Quiet.fail _ _
  · split
    · exact Scan.Quiet.write rfl
    · exact Scan.Quiet.pure ()
  · exact Scan.Quiet.write rfl

/-- Recording the type of a declaration is quiet. -/
theorem recordDeclaredType_quiet (declaration : Node) :
    Scan.Quiet (scope.recordDeclaredType declaration) := by
  unfold recordDeclaredType
  split
  · exact Scan.Quiet.forM scope.recordTypeReference_quiet _
  · exact Scan.Quiet.pure ()

/-! ### Scans that declare variables -/

/-- A scan that declares the variables with given names whenever it gives a value: it hands out
their indices in the region that it finds, records their declarations and changes nothing else. -/
def Declares (names : List Token) (x : Walk Unit) : Prop :=
  ∀ s, (x.run s).result = .ok () →
    (x.run s).state.region = s.region ∧ (x.run s).state.parameters = s.parameters ∧
    (x.run s).state.locals =
      s.locals.putAll (IndexTable.places (names.map fun name => (name, s.region))) ∧
    Journal.localRecords (x.run s).journal =
      (s.locals.numberedFrom (names.map fun name => (name, s.region))).map fun v =>
        scope.variableRecord v.1 v.2

variable {scope}

/-- A quiet scan declares no variables. -/
theorem declares_nil_of_quiet {x : Walk Unit} (hx : Scan.Quiet x) : scope.Declares [] x := by
  intro s _
  obtain ⟨hstate, hrecords⟩ := hx s
  rw [hstate, hrecords]
  exact ⟨rfl, rfl, rfl, rfl⟩

/-- Two scans in a row declare the variables of both, in their order. -/
theorem Declares.bind {names others : List Token} {x : Walk Unit} {f : Unit → Walk Unit}
    (hx : scope.Declares names x) (hf : scope.Declares others (f ())) :
    scope.Declares (names ++ others) (x >>= f) := by
  intro s hok
  obtain ⟨_, hxok, hfok⟩ := Scan.result_bind_eq_ok hok
  obtain ⟨hregion, hparameters, hlocals, hrecords⟩ := hx s hxok
  obtain ⟨hregion', hparameters', hlocals', hrecords'⟩ := hf _ hfok
  rw [Scan.run_bind_of_ok hxok]
  rw [hregion] at hregion' hlocals' hrecords'
  rw [hlocals] at hlocals' hrecords'
  refine ⟨hregion', hparameters'.trans hparameters, ?_, ?_⟩
  · rw [hlocals', List.map_append, IndexTable.putAll_places_append]
  · rw [Journal.localRecords_append, hrecords, hrecords', List.map_append,
      IndexTable.numberedFrom_append, List.map_append]

/-- A loop declares the variables of its steps, in their order. -/
theorem Declares.forM {α : Type} {names : α → List Token} {f : α → Walk Unit}
    (h : ∀ x, scope.Declares (names x) (f x)) (xs : List α) :
    scope.Declares (xs.flatMap names) (xs.forM f) := by
  induction xs with
  | nil => exact declares_nil_of_quiet (Scan.Quiet.pure ())
  | cons x rest ih =>
    rw [List.flatMap_cons]
    exact (h x).bind ih

variable (scope)

/-- An index is handed out in the region of the walk, and only a collision is reported. -/
theorem assignIndex_of_ok {name : Token} {s : WalkState} {index : Nat}
    (h : ((scope.assignIndex name).run s).result = .ok index) :
    index = s.locals.next s.region ∧
    ((scope.assignIndex name).run s).state.region = s.region ∧
    ((scope.assignIndex name).run s).state.parameters = s.parameters ∧
    ((scope.assignIndex name).run s).state.locals = s.locals.put name.span s.region ∧
    Journal.localRecords ((scope.assignIndex name).run s).journal = [] := by
  have hget : ((Scan.get : Walk WalkState).run s).result = .ok s := rfl
  unfold assignIndex at h ⊢
  rw [Scan.run_bind_of_ok hget] at h ⊢
  simp only [Scan.run_get, List.nil_append] at h ⊢
  cases hassign : s.locals.assign? name.span s.region with
  | none =>
    rw [hassign] at h
    cases h
  | some assigned =>
    obtain ⟨i, locals⟩ := assigned
    obtain ⟨rfl, rfl⟩ := IndexTable.assign?_eq_some hassign
    rw [hassign] at h
    by_cases hcollides : scope.collides s (s.locals.next s.region) = true
    · simp only [hcollides, if_true] at h ⊢
      cases h
      exact ⟨rfl, rfl, rfl, rfl, rfl⟩
    · simp only [hcollides, if_false, Bool.false_eq_true] at h ⊢
      cases h
      exact ⟨rfl, rfl, rfl, rfl, rfl⟩

/-- A variable is declared if it has a name. -/
theorem introduceVariable_declares (declaration : Node) :
    scope.Declares declaration.nameToken?.toList (scope.introduceVariable declaration) := by
  unfold introduceVariable
  rw [← List.nil_append declaration.nameToken?.toList]
  apply (declares_nil_of_quiet (scope.recordDeclaredType_quiet declaration)).bind
  split
  · next h => exact h ▸ declares_nil_of_quiet (scope.warn_quiet _ _)
  · next name h =>
    rw [h, Option.toList_some]
    intro s hok
    obtain ⟨index, hindex, -⟩ := Scan.result_bind_eq_ok hok
    obtain ⟨rfl, hregion, hparameters, hlocals, hrecords⟩ := scope.assignIndex_of_ok hindex
    rw [Scan.run_bind_of_ok hindex]
    refine ⟨hregion, hparameters, hlocals, ?_⟩
    rw [Journal.localRecords_append, hrecords]
    rfl

/-- The name that an element of a declaration statement declares. -/
theorem introduceElement_declares (element : Node) :
    scope.Declares
      (if element.kind = .localVariable then element.nameToken?.toList else [])
      (scope.introduceElement element) := by
  unfold introduceElement
  by_cases hlocal : element.kind = .localVariable
  · rw [if_pos hlocal, hlocal]
    exact scope.introduceVariable_declares element
  · rw [if_neg hlocal]
    cases hk : element.kind with
    | localVariable => exact absurd hk hlocal
    | _ => exact declares_nil_of_quiet (scope.warn_quiet _ _)

/-- The elements of a declaration statement declare its variables: modifiers declare nothing. -/
theorem flatMap_declared_eq {n : Node} (hk : n.kind = .declarationStatement) :
    n.declared.flatMap (fun e => if e.kind = .localVariable then e.nameToken?.toList else []) =
      n.variableNames := by
  unfold Node.variableNames Node.declared
  rw [Node.variableNodes_declarationStatement hk, Node.childrenOfKind]
  induction n.childNodes with
  | nil => rfl
  | cons c rest ih =>
    rw [List.filter_cons, List.filter_cons]
    by_cases hlocal : c.kind = .localVariable
    · rw [if_pos (by simp [hlocal]), if_pos (by simp [hlocal]), List.flatMap_cons, if_pos hlocal,
        ih, List.filterMap_cons]
      cases c.nameToken? <;> rfl
    · rw [if_neg (c := decide (c.kind = .localVariable) = true) (by simp [hlocal])]
      by_cases hmodifiers : c.kind = .modifierList
      · rw [if_neg (by simp [hmodifiers]), ih]
      · rw [if_pos (by simp [hmodifiers]), List.flatMap_cons, if_neg hlocal, ih, List.nil_append]

/-- A visit of a node other than a reference declares the variables of the node. -/
theorem visitNode_declares {n : Node} (hn : n.kind ≠ .reference) :
    scope.Declares n.variableNames (scope.visitNode n) := by
  have hfirst (hk : n.kind = .catchSection ∨ n.kind = .foreachStatement) {parameter : Node}
      (h : n.child? .parameter = some parameter) :
      scope.Declares n.variableNames (scope.introduceVariable parameter) := by
    have hdeclares := scope.introduceVariable_declares parameter
    unfold Node.variableNames
    rw [Node.variableNodes_ofParameter hk, h, Option.toList_some]
    cases hname : parameter.nameToken? <;> simpa [hname] using hdeclares
  have hnone (hk : n.kind = .catchSection ∨ n.kind = .foreachStatement)
      (h : n.child? .parameter = none) : scope.Declares n.variableNames (pure ()) := by
    unfold Node.variableNames
    rw [Node.variableNodes_ofParameter hk, h]
    exact declares_nil_of_quiet (Scan.Quiet.pure ())
  unfold visitNode
  split
  · next hk =>
    rw [← flatMap_declared_eq hk]
    exact Declares.forM scope.introduceElement_declares n.declared
  · next hk =>
    split
    · next h => exact hfirst (.inl hk) h
    · next h => exact hnone (.inl hk) h
  · next hk =>
    split
    · next h => exact hfirst (.inr hk) h
    · next h => exact hnone (.inr hk) h
  · next hk => exact absurd hk hn
  · next h1 h2 h3 _ =>
    unfold Node.variableNames
    rw [Node.variableNodes_eq_nil h1 h2 h3]
    exact declares_nil_of_quiet (Scan.Quiet.pure ())

/-! ### Other steps -/

/-- What is recorded at a reference to a local variable. -/
theorem run_recordLocalReference (reference : Token) (declaration : Span) (name : String)
    (s : WalkState) :
    (scope.recordLocalReference reference declaration name).run s =
      ⟨(if (s.locals.find? declaration).isNone then
          [.diagnostic (scope.warningAt reference.start scope.describe (.missingLocalIndex name))]
        else []) ++
          [.record (scope.recordAt reference.span
            (.localVariable (scope.localName name (s.locals.find? declaration))))], s, .ok ()⟩ := by
  have hrun : (scope.recordLocalReference reference declaration name).run s =
      (do
        if (s.locals.find? declaration).isNone then
          scope.warn reference.start (.missingLocalIndex name)
        scope.record reference.span
          (.localVariable (scope.localName name (s.locals.find? declaration))) :
            Walk Unit).run s := rfl
  rw [hrun]
  split <;> rfl

/-- What is recorded at a reference to a parameter of the method. -/
theorem run_recordParameterReference (reference : Token) (declaration : Span) (name : String)
    (s : WalkState) :
    (scope.recordParameterReference reference declaration name).run s =
      ⟨(if (s.parameters.find? declaration).isNone then
          [.diagnostic (scope.warningAt reference.start scope.describe
            (.missingParameterIndex name))]
        else []) ++
          [.record (scope.recordAt reference.span
            (.parameter (scope.localName name (s.parameters.find? declaration))))], s,
        .ok ()⟩ := by
  have hrun : (scope.recordParameterReference reference declaration name).run s =
      (do
        if (s.parameters.find? declaration).isNone then
          scope.warn reference.start (.missingParameterIndex name)
        scope.record reference.span
          (.parameter (scope.localName name (s.parameters.find? declaration))) :
            Walk Unit).run s := rfl
  rw [hrun]
  split <;> rfl

/-- A reference leaves the state of a walk as it is. -/
theorem state_recordReference (reference : Node) (s : WalkState) :
    ((scope.recordReference reference).run s).state = s := by
  unfold recordReference
  split
  · rfl
  · next name _ =>
    split
    · rfl
    · unfold recordTarget
      split
      · rfl
      · rfl
      · rfl
      · rfl
      · rw [run_recordLocalReference]
      · rw [run_recordParameterReference]
      · rw [run_recordLocalReference]
      · rw [run_recordLocalReference]
      · rfl
      · rfl

/-- A token switches the region if it is a marker, and does nothing else. -/
theorem run_switchRegion (t : Token) (s : WalkState) :
    ((scope.switchRegion t).run s).state =
      { s with region := ((Item.token t).marker? scope.options).getD s.region } ∧
    Journal.localRecords ((scope.switchRegion t).run s).journal = [] := by
  unfold switchRegion Item.marker?
  by_cases hk : t.kind = .lineComment
  · simp only [hk, if_true]
    cases scope.options.marker? t.text with
    | none => exact ⟨rfl, rfl⟩
    | some region =>
      have hrun : (do
          let state ← Scan.get
          if region ≠ state.region then
            Scan.write (.note (scope.regionEvent region))
          Scan.modify fun state => { state with region } : Walk Unit).run s =
          (do
            if region ≠ s.region then
              Scan.write (.note (scope.regionEvent region))
            Scan.modify fun state => { state with region } : Walk Unit).run s := rfl
      simp only
      rw [hrun]
      split <;> exact ⟨rfl, rfl⟩
  · simp only [hk, if_false]
    exact ⟨rfl, rfl⟩

/-! ### One step -/

end Scope

/-- The place and the index of the parameter that a step declares, if it declares one by name. -/
def WalkStep.parameterPlace? (step : WalkStep) : Option (Span × Nat) :=
  step.parameter?.bind fun (index, p) => p.nameToken?.map fun name => (name.span, index)

/-- How a walk advances by steps that all give a value: its region is that of the last marker, and
its tables have the variables and the parameters of the steps. -/
structure WalkState.Advances (options : Options) (steps : List WalkStep) (s s' : WalkState) :
    Prop where
  region : s'.region = options.regionFrom s.region (steps.filterMap WalkStep.item?)
  locals : s'.locals = s.locals.putAll
    (IndexTable.places (options.variablesFrom s.region (steps.filterMap WalkStep.item?)))
  parameters : s'.parameters = s.parameters.insertAll (steps.filterMap WalkStep.parameterPlace?)

/-- Steps advance a walk through an intermediate state. -/
theorem WalkState.Advances.append {options : Options} {xs ys : List WalkStep}
    {s t u : WalkState} (hst : Advances options xs s t) (htu : Advances options ys t u) :
    Advances options (xs ++ ys) s u where
  region := by
    rw [htu.region, hst.region, List.filterMap_append, Options.regionFrom_append]
  locals := by
    rw [htu.locals, hst.locals, hst.region, List.filterMap_append, Options.variablesFrom_append,
      IndexTable.putAll_places_append]
  parameters := by
    rw [htu.parameters, hst.parameters, List.filterMap_append]
    unfold Table.insertAll
    rw [List.foldl_append]

namespace Scope

variable (scope : Scope)

/-- The declaration of a parameter enters its index, if it has a name, and does nothing else. -/
theorem run_nameParameter (index : Nat) (p : Node) (s : WalkState) :
    ((scope.nameParameter index p).run s).state =
      { s with parameters :=
          s.parameters.insertAll (WalkStep.parameter index p).parameterPlace?.toList } ∧
    Journal.localRecords ((scope.nameParameter index p).run s).journal = [] := by
  have hplace : (WalkStep.parameter index p).parameterPlace? =
      p.nameToken?.map fun name => (name.span, index) := rfl
  unfold nameParameter
  rw [hplace]
  cases p.nameToken? with
  | none => exact ⟨rfl, rfl⟩
  | some name => exact ⟨rfl, rfl⟩

/-- The records of variables that items declare, when a walk is in a state. -/
def declarationsFrom (s : WalkState) (items : List Item) : List Record :=
  (s.locals.numberedFrom (scope.options.variablesFrom s.region items)).map fun v =>
    scope.variableRecord v.1 v.2

/-- A step that visits nothing declares no local variable. -/
theorem perform_advances_of_item?_eq_none {step : WalkStep} {s : WalkState}
    (hitem : step.item? = none) (hregion : ((scope.perform step).run s).state.region = s.region)
    (hlocals : ((scope.perform step).run s).state.locals = s.locals)
    (hparameters : ((scope.perform step).run s).state.parameters =
      s.parameters.insertAll step.parameterPlace?.toList) :
    WalkState.Advances scope.options [step] s ((scope.perform step).run s).state := by
  constructor
  · rw [hregion]
    simp [hitem, Options.regionFrom]
  · rw [hlocals]
    simp [hitem, Options.variablesFrom, IndexTable.places, IndexTable.putAll]
  · rw [hparameters]
    cases h : step.parameterPlace? <;> simp [h]

/-- A visit advances the walk if it switches to the region of a marker and declares the variables
of its item. -/
theorem perform_advances_of_visit {item : Item} {s : WalkState}
    (hregion : ((scope.visit item).run s).state.region =
      (item.marker? scope.options).getD s.region)
    (hparameters : ((scope.visit item).run s).state.parameters = s.parameters)
    (hlocals : ((scope.visit item).run s).state.locals =
      s.locals.putAll (IndexTable.places (item.variableNames.map fun name => (name, s.region)))) :
    WalkState.Advances scope.options [.visit item] s
      ((scope.perform (.visit item)).run s).state := by
  constructor
  · exact hregion
  · show ((scope.visit item).run s).state.locals = _
    rw [hlocals]
    simp [WalkStep.item?, Options.variablesFrom]
  · exact hparameters

/-- What a step that gives a value does: it advances the walk, and it records the declarations of
its variables with the next indices of the region. -/
theorem perform_advances {step : WalkStep} {s : WalkState}
    (h : ((scope.perform step).run s).result = .ok ()) :
    WalkState.Advances scope.options [step] s ((scope.perform step).run s).state ∧
    Visit.declarationRecords ⟨step, ((scope.perform step).run s).journal⟩ =
      scope.declarationsFrom s ([step].filterMap WalkStep.item?) := by
  cases step with
  | typeReference reference =>
    obtain ⟨hstate, hrecords⟩ := scope.recordTypeReference_quiet reference s
    have hstate' : ((scope.perform (.typeReference reference)).run s).state = s := hstate
    refine ⟨scope.perform_advances_of_item?_eq_none rfl ?_ ?_ ?_, hrecords⟩
    all_goals rw [hstate']
    rfl
  | parameter index p =>
    obtain ⟨hstate, hrecords⟩ := scope.run_nameParameter index p s
    have hstate' : ((scope.perform (.parameter index p)).run s).state =
        { s with parameters :=
            s.parameters.insertAll (WalkStep.parameter index p).parameterPlace?.toList } := hstate
    refine ⟨scope.perform_advances_of_item?_eq_none rfl ?_ ?_ ?_, hrecords⟩
    all_goals rw [hstate']
  | visit item =>
    cases item with
    | token t =>
      obtain ⟨hstate, hrecords⟩ := scope.run_switchRegion t s
      have hvisit : ((scope.visit (.token t)).run s).state =
          { s with region := ((Item.token t).marker? scope.options).getD s.region } := hstate
      refine ⟨scope.perform_advances_of_visit ?_ ?_ ?_, hrecords⟩
      all_goals rw [hvisit]
      rfl
    | node n =>
      -- a reference declares nothing and leaves the state; any other node declares its variables
      by_cases hk : n.kind = .reference
      · have hnames : (Item.node n).variableNames = [] := Node.variableNames_of_reference hk
        have hvisit : ((scope.visit (.node n)).run s).state = s := by
          show ((scope.visitNode n).run s).state = s
          unfold visitNode
          rw [hk]
          exact scope.state_recordReference n s
        refine ⟨scope.perform_advances_of_visit ?_ ?_ ?_, ?_⟩
        · rw [hvisit]
          rfl
        · rw [hvisit]
        · rw [hvisit, hnames]
          rfl
        · unfold Visit.declarationRecords declarationsFrom WalkStep.visitsReference
          simp [hk, WalkStep.item?, Options.variablesFrom, hnames, IndexTable.numberedFrom]
      · obtain ⟨hregion, hparameters, hlocals, hrecords⟩ := scope.visitNode_declares hk s h
        refine ⟨scope.perform_advances_of_visit hregion hparameters hlocals, ?_⟩
        unfold Visit.declarationRecords declarationsFrom WalkStep.visitsReference
        rw [if_neg (by simp [hk])]
        refine Eq.trans hrecords ?_
        simp [WalkStep.item?, Options.variablesFrom, Item.variableNames]

/-! ### Whole walks -/

/-- What steps that all give a value do: they advance the walk, and they record the declarations of
their variables with the numbers of these. -/
theorem run_forM_perform {steps : List WalkStep} {s : WalkState}
    (h : ((steps.forM scope.perform).run s).result = .ok ()) :
    WalkState.Advances scope.options steps s ((steps.forM scope.perform).run s).state ∧
    (Scan.visits scope.perform steps s).flatMap Visit.declarationRecords =
      scope.declarationsFrom s (steps.filterMap WalkStep.item?) := by
  induction steps generalizing s with
  | nil => exact ⟨⟨rfl, rfl, rfl⟩, rfl⟩
  | cons step rest ih =>
    rw [Scan.forM_cons] at h ⊢
    obtain ⟨_, hstep, hrest⟩ := Scan.result_bind_eq_ok h
    obtain ⟨hadvances, hrecords⟩ := scope.perform_advances hstep
    obtain ⟨hadvances', hrecords'⟩ := ih hrest
    rw [Scan.run_bind_of_ok hstep, Scan.visits_cons_of_ok hstep]
    refine ⟨hadvances.append hadvances', ?_⟩
    rw [List.flatMap_cons, hrecords, hrecords', ← List.singleton_append (l := rest),
      List.filterMap_append]
    unfold declarationsFrom
    rw [Options.variablesFrom_append, IndexTable.numberedFrom_append, List.map_append,
      hadvances.region, hadvances.locals]

end Scope

/-- A walk that succeeds performs all of its steps, and it declares each variable of the code that
has a name once and nothing else, in the order of the constructs that declare them and with their
numbers: the variables of ordinary code count from zero, and those of injected code from the base of
injected indices. -/
theorem walk_numbers_variables (scope : Scope) (n : Node)
    (h : ((scope.walk n).run (.initial scope.options)).result = .ok ()) :
    ((scope.walk n).run (.initial scope.options)).journal =
      (scope.visits n.walkSteps).flatMap Visit.journal ∧
    (scope.visits n.walkSteps).map Visit.step = n.walkSteps ∧
    (scope.visits n.walkSteps).flatMap Visit.declarationRecords =
      (scope.options.numberedVariables n.preorder).map fun v => scope.variableRecord v.1 v.2 := by
  rw [scope.walk_eq] at h ⊢
  have hitems : n.walkSteps.filterMap WalkStep.item? = n.preorder := by
    unfold Node.walkSteps
    rw [List.filterMap_map]
    exact List.filterMap_some
  refine ⟨Scan.journal_forM _ _, Scan.map_step_visits_of_ok h, ?_⟩
  have hrecords := (scope.run_forM_perform h).2
  rw [hitems] at hrecords
  unfold Scope.visits
  rw [hrecords]
  unfold Scope.declarationsFrom Options.numberedVariables
  rw [← scope.options.variablesFrom_normal, ← IndexTable.numberedFrom_empty]
  rfl

/-- A block with a variable declared inside the initializer of another, the variable of a catch
section in injected code, and that of a for-each statement behind it. -/
def nestedDeclarations : Node :=
  ⟨⟨0⟩, 0, .codeBlock,
    [.node .declarationStatement
        [.node .localVariable
          [.token .ident "a",
            .node .codeBlock
              [.node .declarationStatement [.node .localVariable [.token .ident "b"]]]],
          .node .localVariable [.token .ident "c"]],
      .token .lineComment "// tag start",
      .node .catchSection [.node .parameter [.token .ident "e"]],
      .token .lineComment "// tag end",
      .node .foreachStatement [.node .parameter [.token .ident "i"]]]⟩

/-- The variables of one statement are numbered before what stands inside it, and injected ones
do not shift the others. -/
theorem walk_numbers_variables_nested :
    let scope : Scope := ⟨.ofText "A.java" "" Bindings.empty.resolver {}, "A", ⟨"m", "()V"⟩⟩
    ((scope.walk nestedDeclarations).run (.initial scope.options)).result = .ok () ∧
    (scope.visits nestedDeclarations.walkSteps).flatMap Visit.declarationRecords =
      [scope.variableRecord ⟨0, .ident, "a"⟩ 0, scope.variableRecord ⟨2, .ident, "c"⟩ 1,
        scope.variableRecord ⟨1, .ident, "b"⟩ 2, scope.variableRecord ⟨15, .ident, "e"⟩ 100,
        scope.variableRecord ⟨26, .ident, "i"⟩ 3] := by
  intro scope
  have hok : ((scope.walk nestedDeclarations).run (.initial scope.options)).result = .ok () := by
    decide +kernel
  have hnumbered : scope.options.numberedVariables nestedDeclarations.preorder =
      [(⟨0, .ident, "a"⟩, 0), (⟨2, .ident, "c"⟩, 1), (⟨1, .ident, "b"⟩, 2),
        (⟨15, .ident, "e"⟩, 100), (⟨26, .ident, "i"⟩, 3)] := by
    decide +kernel
  refine ⟨hok, ?_⟩
  rw [(walk_numbers_variables scope nestedDeclarations hok).2.2, hnumbered]
  rfl

end SymbolRanges

import Mathlib.Data.List.Basic
import SymbolRanges.Proofs.Walk.Acts
import SymbolRanges.Proofs.Walk.Resolution

/-!
# When a counter is used up

A walk stops for want of an index only where it comes to a variable with a name and the counter of
the region has reached the last index. Whether it comes there depends on the references before it,
which have to resolve, and the counter depends on the variables before it in the same region. Both
can be read off the acts of the walk: `Scope.overflows_iff`.
-/

set_option autoImplicit false

namespace SymbolRanges

/-! ### Loops that overflow -/

namespace Scan

variable {σ α β : Type}

/-- A scan that never stops for want of an index. -/
def NeverOverflows (x : Scan σ α) : Prop := ∀ s, (x.run s).result ≠ .error .indexOverflow

namespace NeverOverflows

/-- A scan that only gives a value needs no index. -/
theorem pure (a : α) : (Pure.pure a : Scan σ α).NeverOverflows := nofun

/-- Reading the state needs no index. -/
theorem get : (Scan.get : Scan σ σ).NeverOverflows := nofun

/-- Changing the state needs no index, whatever the change is. -/
theorem modify (f : σ → σ) : (Scan.modify f).NeverOverflows := nofun

/-- Writing an entry needs no index. -/
theorem write (entry : Entry) : (Scan.write entry : Scan σ Unit).NeverOverflows := nofun

/-- A scan that fails stops for another reason. -/
theorem fail (failure : FileFailure) (message : String) :
    (Scan.fail failure message : Scan σ α).NeverOverflows := nofun

/-- Two scans in a row never overflow if neither does. -/
theorem bind {x : Scan σ α} {f : α → Scan σ β} (hx : x.NeverOverflows)
    (hf : ∀ a, (f a).NeverOverflows) : (x >>= f).NeverOverflows := by
  intro s
  rw [run_bind, Outcome.andThen]
  cases h : (x.run s).result with
  | ok a => exact hf a _
  | error stop =>
    intro hstop
    cases hstop
    exact hx s h

end NeverOverflows

variable {f : α → Scan σ Unit} {allowed : FileFailure → Prop} {R : α → Prop}

/-- A loop that stops has a first step that stops, behind steps that give a value. -/
theorem exists_of_result_forM_eq_error {xs : List α} {s : σ} {stop : Stop}
    (h : ((xs.forM f).run s).result = .error stop) :
    ∃ before x after, xs = before ++ x :: after ∧ ((before.forM f).run s).result = .ok () ∧
      ((f x).run ((before.forM f).run s).state).result = .error stop := by
  induction xs generalizing s with
  | nil => cases h
  | cons x rest ih =>
    rw [forM_cons] at h
    cases hx : ((f x).run s).result with
    | error other =>
      rw [run_bind, Outcome.andThen, hx] at h
      exact ⟨[], x, rest, rfl, rfl, hx.trans h⟩
    | ok u =>
      rw [run_bind_of_ok hx] at h
      obtain ⟨before, y, after, rfl, hok, hy⟩ := ih h
      refine ⟨x :: before, y, after, rfl, ?_, ?_⟩
      · rw [forM_cons, run_bind_of_ok hx]
        exact hok
      · rw [forM_cons, run_bind_of_ok hx]
        exact hy

/-- A loop overflows if a step does that it comes to when no counter is used up before, and if
nothing before this step fails. -/
theorem overflows_of_split (hf : ∀ x, (f x).Decides allowed (R x)) {before : List α} {x : α}
    (hbefore : ∀ y ∈ before, R y) {s : σ}
    (hx : ((before.forM f).run s).result = .ok () →
      ((f x).run ((before.forM f).run s).state).result = .error .indexOverflow)
    (after : List α) :
    (((before ++ x :: after).forM f).run s).result = .error .indexOverflow := by
  have hdecides := Decides.forM before (fun y _ => hf y) s
  unfold Outcome.Agrees at hdecides
  rw [forM_append, run_bind, Outcome.andThen]
  cases hresult : ((before.forM f).run s).result with
  | ok u =>
    have hstop := hx hresult
    dsimp only
    rw [forM_cons, run_bind, Outcome.andThen, hstop]
  | error stop =>
    cases stop with
    | indexOverflow => rfl
    | failed failure =>
      rw [hresult] at hdecides
      exact absurd hbefore hdecides.1

/-- If a loop gives a value, what its steps decide holds of every element. -/
theorem forall_of_result_forM_eq_ok (hf : ∀ x, (f x).Decides allowed (R x)) {xs : List α} {s : σ}
    (h : ((xs.forM f).run s).result = .ok ()) : ∀ x ∈ xs, R x := by
  have hdecides := Decides.forM xs (fun x _ => hf x) s
  unfold Outcome.Agrees at hdecides
  rw [h] at hdecides
  exact hdecides.1

end Scan

/-! ### What an act asks for -/

/-- What an act asks for resolves: a reference with a name, and every reference of a declared
type. -/
def Resolver.Passes (resolver : Resolver) : WalkAct → Prop
  | .reference n => n.referenceName?.isSome = true → resolver.Resolves n
  | .typeReference n => resolver.Resolves n
  | _ => True

/-- The name of the variable that an act declares, if it declares one by name. -/
def WalkAct.variableName? : WalkAct → Option Token
  | .localVariable v => v.nameToken?
  | _ => none

namespace Scope

variable (scope : Scope)

/-- An act fails exactly where what it asks for does not resolve. -/
theorem act_decides (a : WalkAct) :
    (scope.act a).Decides (FileFailure.IsUnresolved scope.file) (scope.resolver.Passes a) := by
  cases a with
  | token t => exact scope.switchRegion_decides t
  | reference n => exact scope.recordReference_decides n
  | typeReference n => exact scope.recordTypeReference_decides n
  | localVariable v =>
    show (scope.nameVariable v).Decides _ True
    unfold nameVariable
    split
    · exact scope.warn_decides _ _
    · next name _ =>
      exact ((scope.assignIndex_decides name).bind fun _ => scope.record_decides _ _).congr
        (by simp)
  | passOver element =>
    show (scope.passOver element).Decides _ True
    unfold passOver
    split <;> exact scope.warn_decides _ _
  | parameter index p =>
    show (scope.nameParameter index p).Decides _ True
    unfold nameParameter
    split
    · exact scope.warn_decides _ _
    · exact ((Scan.Decides.modify _).bind fun _ => scope.record_decides _ _).congr (by simp)
  | seed indices => exact Scan.Decides.modify _

/-- A reference that resolves needs no index of its own: it looks up that of the declaration. -/
theorem recordTarget_neverOverflows (token : Token) (target : Target) :
    (scope.recordTarget token target).NeverOverflows := by
  have hlocal (declaration : Span) (name : String) :
      (scope.recordLocalReference token declaration name).NeverOverflows := by
    intro s
    rw [run_recordLocalReference]
    nofun
  have hparameter (declaration : Span) (name : String) :
      (scope.recordParameterReference token declaration name).NeverOverflows := by
    intro s
    rw [run_recordParameterReference]
    nofun
  unfold recordTarget
  split
  · exact .pure ()
  · exact .write _
  · exact .write _
  · exact .write _
  · exact hlocal _ _
  · exact hparameter _ _
  · exact hlocal _ _
  · exact hlocal _ _
  · exact .write _
  · exact .write _

/-- An act that declares no variable needs no index. -/
theorem act_neverOverflows {a : WalkAct} (h : a.declaresVariable = false) :
    (scope.act a).NeverOverflows := by
  cases a with
  | token t =>
    show (scope.switchRegion t).NeverOverflows
    unfold switchRegion
    split
    · split
      · exact .pure ()
      · refine .bind .get fun state => ?_
        dsimp only
        split
        · exact .bind (.write _) fun _ => .modify _
        · exact .modify _
    · exact .pure ()
  | reference n =>
    show (scope.recordReference n).NeverOverflows
    unfold recordReference
    split
    · exact .write _
    · split
      · exact .fail _ _
      · exact scope.recordTarget_neverOverflows _ _
  | typeReference n =>
    show (scope.recordTypeReference n).NeverOverflows
    unfold recordTypeReference
    split
    · exact .fail _ _
    · split
      · exact .write _
      · exact .pure ()
    · exact .write _
  | localVariable v => cases h
  | passOver element =>
    show (scope.passOver element).NeverOverflows
    unfold passOver
    split <;> exact .write _
  | parameter index p =>
    show (scope.nameParameter index p).NeverOverflows
    unfold nameParameter
    split
    · exact .write _
    · exact .bind (.modify _) fun _ => .write _
  | seed indices => exact .modify _

/-- An act stops for want of an index exactly where it declares a variable by name and the counter
of the region is used up. -/
theorem act_overflows_iff (a : WalkAct) (s : WalkState) :
    ((scope.act a).run s).result = .error .indexOverflow ↔
      a.variableName?.isSome = true ∧ IndexTable.counterLimit ≤ s.locals.next s.region := by
  cases hdeclares : a.declaresVariable with
  | false =>
    have hnone : a.variableName? = none := by cases a <;> first | rfl | cases hdeclares
    have hnever := scope.act_neverOverflows hdeclares s
    simp [hnone, hnever]
  | true =>
    cases a with
    | localVariable v =>
      rw [act]
      show _ ↔ v.nameToken?.isSome = true ∧ _
      cases hname : v.nameToken? with
      | none =>
        rw [scope.run_nameVariable_of_none hname]
        simp
      | some name =>
        rw [scope.run_nameVariable hname]
        by_cases hlt : s.locals.next s.region < IndexTable.counterLimit
        · simp [hlt]
        · rw [if_neg hlt]
          simp only [Option.isSome_some, true_and, true_iff]
          omega
    | _ => cases hdeclares

end Scope

/-! ### Counting -/

namespace Options

variable (options : Options)

/-- The region behind acts that are entered in a region. -/
def regionBehind : Region → List WalkAct → Region
  | region, [] => region
  | region, a :: rest => regionBehind ((a.marker? options).getD region) rest

/-- The regions in which acts that are entered in a region declare variables by name, one for each
variable. -/
def declaringRegions : Region → List WalkAct → List Region
  | _, [] => []
  | region, a :: rest =>
    (a.variableName?.map fun _ => region).toList ++
      declaringRegions ((a.marker? options).getD region) rest

/-- There is one region for each variable that acts declare by name. -/
theorem length_declaringRegions (region : Region) (acts : List WalkAct) :
    (options.declaringRegions region acts).length =
      (acts.filterMap WalkAct.variableName?).length := by
  induction acts generalizing region with
  | nil => rfl
  | cons a rest ih =>
    rw [declaringRegions, List.length_append, ih, List.filterMap_cons]
    cases a.variableName? with
    | none => simp
    | some name => simp [Nat.add_comm]

end Options

/-- How acts that all give a value count: the region is that of the last marker, and each counter
has moved on by one for every variable that was declared by name in its region. -/
structure WalkState.Counts (options : Options) (acts : List WalkAct) (s s' : WalkState) :
    Prop where
  region : s'.region = options.regionBehind s.region acts
  next : ∀ region, s'.locals.next region =
    s.locals.next region + (options.declaringRegions s.region acts).count region
  next_le : ∀ region, s'.locals.next region ≤ IndexTable.counterLimit

/-- The counts of one act and of the acts behind it add up. -/
theorem WalkState.Counts.cons {options : Options} {a : WalkAct} {rest : List WalkAct}
    {s t u : WalkState} (hst : Counts options [a] s t) (htu : Counts options rest t u) :
    Counts options (a :: rest) s u where
  region := by
    rw [htu.region, hst.region]
    rfl
  next region := by
    have hfirst := hst.next region
    rw [Options.declaringRegions, Options.declaringRegions, List.append_nil] at hfirst
    rw [htu.next, hfirst, hst.region, Options.declaringRegions, List.count_append, Nat.add_assoc]
    rfl
  next_le := htu.next_le

namespace Scope

variable (scope : Scope)

/-- An act that gives a value counts the variable that it declares, if it declares one by name. -/
theorem act_counts {a : WalkAct} {s : WalkState}
    (hle : ∀ region, s.locals.next region ≤ IndexTable.counterLimit)
    (hok : ((scope.act a).run s).result = .ok ()) :
    WalkState.Counts scope.options [a] s ((scope.act a).run s).state := by
  -- without a new index the tables stay as they are
  have hidle (hname : a.variableName? = none)
      (hlocals : ((scope.act a).run s).state.locals = s.locals)
      (hregion : ((scope.act a).run s).state.region = (a.marker? scope.options).getD s.region) :
      WalkState.Counts scope.options [a] s ((scope.act a).run s).state := by
    refine ⟨hregion, ?_, ?_⟩
    · intro region
      rw [hlocals]
      simp [Options.declaringRegions, hname]
    · rw [hlocals]
      exact hle
  cases hdeclares : a.declaresVariable with
  | false =>
    obtain ⟨hlocals, -, hregion⟩ := scope.act_leaves hdeclares s
    have hnone : a.variableName? = none := by cases a <;> first | rfl | cases hdeclares
    exact hidle hnone hlocals hregion
  | true =>
    cases a with
    | localVariable v =>
      cases hname : v.nameToken? with
      | none =>
        refine hidle hname ?_ ?_
        · rw [act, scope.run_nameVariable_of_none hname]
        · rw [act, scope.run_nameVariable_of_none hname]
          rfl
      | some name =>
        rw [act, scope.run_nameVariable hname] at hok ⊢
        split at hok
        · next hlt =>
          rw [if_pos hlt]
          refine ⟨rfl, ?_, ?_⟩
          · intro region
            rw [IndexTable.next_put]
            simp [Options.declaringRegions, WalkAct.variableName?, hname, List.count_singleton]
          · intro region
            rw [IndexTable.next_put]
            split
            · next heq => exact heq ▸ hlt
            · exact hle region
        · cases hok
    | _ => cases hdeclares

/-- Acts that all give a value count every variable that they declare by name, in its region. -/
theorem acts_count {acts : List WalkAct} {s : WalkState}
    (hle : ∀ region, s.locals.next region ≤ IndexTable.counterLimit)
    (hok : ((acts.forM scope.act).run s).result = .ok ()) :
    WalkState.Counts scope.options acts s ((acts.forM scope.act).run s).state := by
  induction acts generalizing s with
  | nil => exact ⟨rfl, fun _ => rfl, hle⟩
  | cons a rest ih =>
    rw [Scan.forM_cons] at hok ⊢
    obtain ⟨u, ha, hrest⟩ := Scan.result_bind_eq_ok hok
    -- the first act keeps the counters within the limit, as the induction asks of the rest
    have hfirst := scope.act_counts hle ha
    rw [Scan.run_bind_of_ok ha]
    exact hfirst.cons (ih hfirst.next_le hrest)

end Scope

/-- Acts that come to a variable with a name for which there is no index left: what is asked for
before it resolves, and the variables declared by name before it in the same region take all the
indices from the first of the region up to the last. -/
def Options.UsesUpCounter (options : Options) (resolver : Resolver) (acts : List WalkAct) : Prop :=
  ∃ before v after, acts = before ++ .localVariable v :: after ∧ v.nameToken?.isSome = true ∧
    (∀ a ∈ before, resolver.Passes a) ∧
    let region := options.regionBehind .normal before
    options.firstIndex region + (options.declaringRegions .normal before).count region =
      IndexTable.counterLimit

/-- A walker overflows exactly where its acts use up a counter. -/
theorem Scope.overflows_iff (scope : Scope)
    (hbase : scope.options.injectedBase ≤ IndexTable.counterLimit) (acts : List WalkAct) :
    ((acts.forM scope.act).run (.initial scope.options)).result = .error .indexOverflow ↔
      scope.options.UsesUpCounter scope.resolver acts := by
  have hle (region : Region) :
      (WalkState.initial scope.options).locals.next region ≤ IndexTable.counterLimit := by
    cases region with
    | normal => exact Nat.zero_le _
    | injected => exact hbase
  have hfirst (region : Region) :
      (WalkState.initial scope.options).locals.next region = scope.options.firstIndex region := by
    cases region <;> rfl
  constructor
  · intro h
    obtain ⟨before, a, after, rfl, hok, hstop⟩ := Scan.exists_of_result_forM_eq_error h
    obtain ⟨hname, hfull⟩ := (scope.act_overflows_iff a _).1 hstop
    have hcounts := scope.acts_count hle hok
    cases a with
    | localVariable v =>
      refine ⟨before, v, after, rfl, hname,
        Scan.forall_of_result_forM_eq_ok scope.act_decides hok, ?_⟩
      have hnext := hcounts.next (scope.options.regionBehind .normal before)
      have hmost := hcounts.next_le (scope.options.regionBehind .normal before)
      rw [hcounts.region] at hfull
      rw [hfirst] at hnext
      exact hnext.symm.trans (Nat.le_antisymm hmost hfull)
    | _ => cases hname
  · rintro ⟨before, v, after, rfl, hname, hbefore, hfull⟩
    refine Scan.overflows_of_split scope.act_decides hbefore ?_ after
    intro hok
    have hcounts := scope.acts_count hle hok
    refine (scope.act_overflows_iff _ _).2 ⟨hname, ?_⟩
    rw [hcounts.next, hcounts.region, hfirst]
    exact Nat.le_of_eq hfull.symm

/-! ### The variables of a walk -/

namespace Node

variable (isClass : Node → Bool)

/-- Recording a type declares no variable. -/
theorem filterMap_variableName?_typeActs (type : Node) :
    (type.typeActs isClass).filterMap WalkAct.variableName? = [] := by
  simp [typeActs, List.filterMap_map, WalkAct.variableName?]

/-- Recording the type of a declaration declares no variable. -/
theorem filterMap_variableName?_declaredTypeActs (declaration : Node) :
    (declaration.declaredTypeActs isClass).filterMap WalkAct.variableName? = [] := by
  simp [declaredTypeActs, List.filterMap_flatMap, filterMap_variableName?_typeActs]

/-- The acts for a variable declare it under its name, if it has one. -/
theorem filterMap_variableName?_variableActs (v : Node) :
    (v.variableActs isClass).filterMap WalkAct.variableName? = v.nameToken?.toList := by
  rw [variableActs, List.filterMap_append, filterMap_variableName?_declaredTypeActs,
    List.nil_append]
  cases hname : v.nameToken? <;> simp [WalkAct.variableName?, hname]

/-- The visit of a node declares the variables of the node. -/
theorem filterMap_variableName?_visitActs (n : Node) :
    (n.visitActs isClass).filterMap WalkAct.variableName? = n.variableNames := by
  have hfirst (hk : n.kind = .catchSection ∨ n.kind = .foreachStatement) :
      ((n.child? .parameter).toList.flatMap (variableActs isClass)).filterMap
        WalkAct.variableName? = n.variableNames := by
    rw [List.filterMap_flatMap, variableNames, variableNodes_ofParameter hk,
      List.filterMap_eq_flatMap_toList]
    simp only [filterMap_variableName?_variableActs]
  unfold visitActs
  split
  · next hk =>
    rw [List.filterMap_flatMap, ← Scope.flatMap_declared_eq hk]
    refine List.flatMap_congr fun element _ => ?_
    unfold elementActs
    split
    · exact element.filterMap_variableName?_variableActs isClass
    · rfl
  · next hk => exact hfirst (.inl hk)
  · next hk => exact hfirst (.inr hk)
  · next hk => exact (variableNames_of_reference hk).symm
  · next h1 h2 h3 _ =>
    rw [variableNames, variableNodes_eq_nil h1 h2 h3]
    rfl

/-- A walk declares the variables of the nodes that it goes through. -/
theorem filterMap_variableName?_walkActs (n : Node) :
    (n.walkActs isClass).filterMap WalkAct.variableName? = n.descendants.flatMap variableNames := by
  unfold walkActs descendants
  rw [List.filterMap_flatMap]
  induction n.preorder with
  | nil => rfl
  | cons item rest ih =>
    rw [List.flatMap_cons, ih]
    cases item with
    | token t => rfl
    | node m =>
      have hvisit := m.filterMap_variableName?_visitActs isClass
      exact congrArg (fun names => names ++ _) hvisit

end Node

end SymbolRanges

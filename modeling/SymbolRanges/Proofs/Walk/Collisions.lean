import SymbolRanges.Proofs.Walk.Acts

/-!
# Collisions of indices

A walker is called any number of times: it walks through code, records types, and declares or takes
over the parameters of the method. A call that fails leaves the walker as it has become, and the
next call goes on from there. The indices of ordinary and of injected variables come from two
counters, and the first may run into the stretch of the second.

`Scope.Accounts` ties the state of a walker to all that it has done so far. `act_accounts` says that
every act keeps the account, and `live_accounts` that a whole life does.
`index_collisions_are_reported` is the result: as long as the walker has reported no collision, no
two of its variables have the same index.
-/

set_option autoImplicit false

namespace SymbolRanges

/-! ### The life of a walker -/

/-- A call of a walker. -/
inductive WalkerCall where
  /-- Walks through a node. -/
  | walk (n : Node)
  /-- Records a type. -/
  | recordType (type : Node)
  /-- Declares the parameter of the method with a given index. -/
  | parameter (index : Nat) (declaration : Node)
  /-- Takes over the indices of parameters. -/
  | seed (indices : List (Span × Nat))

/-- The acts of a call. -/
def WalkerCall.acts (isClass : Node → Bool) : WalkerCall → List WalkAct
  | .walk n => n.walkActs isClass
  | .recordType type => type.typeActs isClass
  | .parameter index p =>
    (p.child? .modifierList).toList.flatMap (Node.walkActs isClass) ++
      p.declaredTypeActs isClass ++ [.parameter index p]
  | .seed indices => [.seed indices]

/-- A scan whose failure ends this scan alone. Without an index left there is no going on. -/
def Scan.attempt {σ : Type} (x : Scan σ Unit) : Scan σ Unit :=
  ⟨fun s =>
    let o := x.run s
    ⟨o.journal, o.state,
      match o.result with
      | .error (.failed _) => .ok ()
      | result => result⟩⟩

namespace Scope

variable (scope : Scope)

/-- Performs a call. -/
def call : WalkerCall → Walk Unit
  | .walk n => scope.walk n
  | .recordType type => scope.recordType type
  | .parameter index p => scope.introduceParameter index p
  | .seed indices => seedParameters indices

/-- Performs calls one after the other. -/
def live (calls : List WalkerCall) : Walk Unit := calls.forM fun call => (scope.call call).attempt

/-- The acts that calls perform from a state on, each with what it wrote. -/
def lifeVisits : List WalkerCall → WalkState → List (Visit WalkAct)
  | [], _ => []
  | call :: rest, s =>
    let o := (scope.call call).attempt.run s
    Scan.visits scope.act (call.acts scope.resolver.isClass) s ++
      match o.result with
      | .ok () => lifeVisits rest o.state
      | .error _ => []

/-- A walk through a part of a construct performs its acts in turn. -/
theorem walkPart_eq_acts (n : Node) (kind : Kind) :
    scope.walkPart n kind =
      ((n.child? kind).toList.flatMap (Node.walkActs scope.resolver.isClass)).forM scope.act := by
  unfold walkPart
  rw [Scan.forM_flatMap, Scan.forM_toList]
  cases n.child? kind with
  | none => rfl
  | some part => exact scope.walk_eq_acts part

/-- A call performs its acts in turn. -/
theorem call_eq_acts (call : WalkerCall) :
    scope.call call = (call.acts scope.resolver.isClass).forM scope.act := by
  cases call with
  | walk n => exact scope.walk_eq_acts n
  | recordType type => exact scope.recordType_eq_acts type
  | parameter index p =>
    rw [WalkerCall.acts, List.append_assoc, Scan.forM_append, Scan.forM_append, Scan.forM_singleton,
      ← walkPart_eq_acts, ← recordDeclaredType_eq_acts]
    rfl
  | seed indices => exact (Scan.forM_singleton scope.act (.seed indices)).symm

/-- A life writes what its acts write. -/
theorem journal_live (calls : List WalkerCall) (s : WalkState) :
    ((scope.live calls).run s).journal = (scope.lifeVisits calls s).flatMap Visit.journal := by
  induction calls generalizing s with
  | nil => rfl
  | cons call rest ih =>
    have hcall : ((scope.call call).attempt.run s).journal =
        (Scan.visits scope.act (call.acts scope.resolver.isClass) s).flatMap Visit.journal := by
      rw [← Scan.journal_forM, ← call_eq_acts]
      rfl
    unfold live lifeVisits
    rw [Scan.forM_cons, Scan.run_bind, Outcome.andThen, List.flatMap_append, ← hcall]
    cases hresult : ((scope.call call).attempt.run s).result with
    | ok u => exact congrArg _ (ih _)
    | error stop => exact (List.append_nil _).symm

end Scope

/-! ### The variables that were declared -/

/-- A local variable that a walker declared. -/
structure DeclaredVariable where
  name : Token
  /-- The region that it was declared in. -/
  region : Region
  /-- The index that it was recorded with. -/
  index : Nat
  deriving DecidableEq

/-- Whether a variable of ordinary code has an index that injected code may have as well. -/
def DeclaredVariable.collides (base : Nat) (v : DeclaredVariable) : Bool :=
  decide (v.region = .normal ∧ base ≤ v.index)

namespace Visit

/-- The records of local variables that an act of declaring one wrote. -/
def variableRecords (v : Visit WalkAct) : List Record :=
  if v.step.declaresVariable then Journal.localRecords v.journal else []

/-- The variable that an act declared in a region, if it declared one. -/
def declared? (region : Region) (v : Visit WalkAct) : Option DeclaredVariable :=
  match v.step with
  | .localVariable declaration => do
    let name ← declaration.nameToken?
    let r ← v.variableRecords.head?
    let index ← r.identity.index
    some ⟨name, region, index⟩
  | _ => none

/-- The collisions that an act reported. -/
def collisions (v : Visit WalkAct) : List Diagnostic :=
  (Journal.diagnostics v.journal).filter fun d => decide (d.code = .indexCollision)

end Visit

namespace Options

variable (options : Options)

/-- The region after acts that are entered in a region. -/
def regionThrough : Region → List (Visit WalkAct) → Region
  | region, [] => region
  | region, v :: rest => regionThrough ((v.step.marker? options).getD region) rest

/-- The variables that acts declared when they were entered in a region. -/
def declaredThrough : Region → List (Visit WalkAct) → List DeclaredVariable
  | _, [] => []
  | region, v :: rest =>
    (v.declared? region).toList ++
      declaredThrough ((v.step.marker? options).getD region) rest

/-- A visit at the end switches the region if its act is a marker. -/
theorem regionThrough_concat (region : Region) (vs : List (Visit WalkAct)) (v : Visit WalkAct) :
    options.regionThrough region (vs ++ [v]) =
      (v.step.marker? options).getD (options.regionThrough region vs) := by
  induction vs generalizing region with
  | nil => rfl
  | cons u vs ih => exact ih _

/-- A visit at the end adds its variable to those declared. -/
theorem declaredThrough_concat (region : Region) (vs : List (Visit WalkAct))
    (v : Visit WalkAct) :
    options.declaredThrough region (vs ++ [v]) =
      options.declaredThrough region vs ++
        (v.declared? (options.regionThrough region vs)).toList := by
  induction vs generalizing region with
  | nil => exact List.append_nil _
  | cons u vs ih =>
    rw [List.cons_append, declaredThrough, ih, declaredThrough, List.append_assoc]
    rfl

end Options

/-! ### Accounts -/

/-- What holds after every step of a loop, of the state and of the visits so far, holds after the
loop, also if it stops. -/
theorem Scan.forM_visits_induction {σ α : Type} {f : α → Scan σ Unit}
    {motive : List (Visit α) → σ → Prop}
    (hstep : ∀ vs s x, motive vs s →
      motive (vs ++ [⟨x, ((f x).run s).journal⟩]) ((f x).run s).state)
    (xs : List α) (vs : List (Visit α)) (s : σ) (h : motive vs s) :
    motive (vs ++ visits f xs s) ((xs.forM f).run s).state := by
  induction xs generalizing vs s with
  | nil => simpa [visits] using h
  | cons x rest ih =>
    have hx := hstep vs s x h
    rw [visits, forM_cons, run_bind, Outcome.andThen]
    cases hresult : ((f x).run s).result with
    | error stop => exact hx
    | ok u =>
      have hrest := ih _ _ hx
      rw [List.append_assoc] at hrest
      exact hrest

namespace Scope

variable (scope : Scope)

/-- The warning that a variable of ordinary code collides. -/
def collisionWarning (v : DeclaredVariable) : Diagnostic :=
  scope.warningAt v.name.start scope.describe
    (.indexCollision v.index v.name.text scope.options.injectedBase)

/-- The variables that acts of a walker declared since it started. -/
def declaredBy (vs : List (Visit WalkAct)) : List DeclaredVariable :=
  scope.options.declaredThrough .normal vs

/-- How the state of a walker accounts for its acts since it started. -/
structure Accounts (vs : List (Visit WalkAct)) (s : WalkState) : Prop where
  region : s.region = scope.options.regionThrough .normal vs
  /-- Every declaration was recorded with its index. -/
  records : vs.flatMap Visit.variableRecords =
    (scope.declaredBy vs).map fun v => scope.variableRecord v.name v.index
  /-- The counters start with the first index of their region. -/
  first_le_next : ∀ region, scope.options.firstIndex region ≤ s.locals.next region
  first_le_index : ∀ v ∈ scope.declaredBy vs, scope.options.firstIndex v.region ≤ v.index
  index_lt_next : ∀ v ∈ scope.declaredBy vs, v.index < s.locals.next v.region
  /-- A counter hands out no index twice. -/
  distinct : (scope.declaredBy vs).Pairwise fun u v => u.region = v.region → u.index ≠ v.index
  collided : s.collided =
    (scope.declaredBy vs).any (DeclaredVariable.collides scope.options.injectedBase)
  /-- Only the first collision was reported. -/
  collisions : vs.flatMap Visit.collisions =
    (((scope.declaredBy vs).find? (DeclaredVariable.collides scope.options.injectedBase)).map
      scope.collisionWarning).toList

/-- The account holds of a walk that has done nothing. -/
theorem accounts_initial : scope.Accounts [] (.initial scope.options) where
  region := rfl
  records := rfl
  first_le_next region := by cases region <;> exact Nat.le_refl _
  first_le_index v hv := by cases hv
  index_lt_next v hv := by cases hv
  distinct := List.Pairwise.nil
  collided := rfl
  collisions := rfl

variable {scope}

/-- An act that declares nothing and reports no collision keeps the account. -/
theorem Accounts.concat_of_none {vs : List (Visit WalkAct)} {s s' : WalkState} {v : Visit WalkAct}
    (h : scope.Accounts vs s) (hdeclared : v.declared? s.region = none)
    (hrecords : v.variableRecords = []) (hcollisions : v.collisions = [])
    (hlocals : s'.locals = s.locals) (hcollided : s'.collided = s.collided)
    (hregion : s'.region = (v.step.marker? scope.options).getD s.region) :
    scope.Accounts (vs ++ [v]) s' := by
  have hsame : scope.declaredBy (vs ++ [v]) = scope.declaredBy vs := by
    unfold declaredBy
    rw [Options.declaredThrough_concat, ← h.region, hdeclared]
    exact List.append_nil _
  constructor
  · rw [hregion, Options.regionThrough_concat, h.region]
  · simp [hsame, hrecords, h.records]
  · simpa [hlocals] using h.first_le_next
  · simpa [hsame] using h.first_le_index
  · simpa [hsame, hlocals] using h.index_lt_next
  · simpa [hsame] using h.distinct
  · simp [hsame, hcollided, h.collided]
  · simp [hsame, hcollisions, h.collisions]

/-- A variable that gets the next index of its region, with a warning if it is the first that
collides, keeps the account. -/
theorem Accounts.concat_of_some {vs : List (Visit WalkAct)} {s s' : WalkState} {v : Visit WalkAct}
    (h : scope.Accounts vs s) (name : Token)
    (hdeclared : v.declared? s.region = some ⟨name, s.region, s.locals.next s.region⟩)
    (hrecords : v.variableRecords = [scope.variableRecord name (s.locals.next s.region)])
    (hcollisions : v.collisions = if scope.collides s (s.locals.next s.region) then
      [scope.collisionWarning ⟨name, s.region, s.locals.next s.region⟩] else [])
    (hmarker : v.step.marker? scope.options = none)
    (hs' : s' = { s with
      locals := s.locals.put name.span s.region
      collided := s.collided || scope.collides s (s.locals.next s.region) }) :
    scope.Accounts (vs ++ [v]) s' := by
  have hconcat : scope.declaredBy (vs ++ [v]) =
      scope.declaredBy vs ++ [⟨name, s.region, s.locals.next s.region⟩] := by
    unfold declaredBy
    rw [Options.declaredThrough_concat, ← h.region, hdeclared, Option.toList_some]
  have hnext (region : Region) : s.locals.next region ≤ s'.locals.next region := by
    rw [hs', IndexTable.next_put]
    omega
  have hcollides : scope.collides s (s.locals.next s.region) =
      (DeclaredVariable.collides scope.options.injectedBase
        ⟨name, s.region, s.locals.next s.region⟩ && !s.collided) := rfl
  constructor
  · rw [Options.regionThrough_concat, hmarker, ← h.region, hs']
    rfl
  · simp [hconcat, hrecords, h.records]
  · intro region
    exact Nat.le_trans (h.first_le_next region) (hnext region)
  · intro u hu
    rw [hconcat, List.mem_append, List.mem_singleton] at hu
    rcases hu with hu | rfl
    · exact h.first_le_index u hu
    · exact h.first_le_next s.region
  · intro u hu
    rw [hconcat, List.mem_append, List.mem_singleton] at hu
    rcases hu with hu | rfl
    · exact Nat.lt_of_lt_of_le (h.index_lt_next u hu) (hnext u.region)
    · rw [hs', IndexTable.next_put, if_pos rfl]
      exact Nat.lt_succ_self _
  · rw [hconcat, List.pairwise_append]
    refine ⟨h.distinct, List.pairwise_singleton _ _, ?_⟩
    intro u hu w hw
    rw [List.mem_singleton.1 hw]
    intro hregion
    have hlt := h.index_lt_next u hu
    rw [show u.region = s.region from hregion] at hlt
    exact Nat.ne_of_lt hlt
  · rw [hconcat, List.any_append, ← h.collided, hs', hcollides]
    cases s.collided <;> simp
  · rw [List.flatMap_append, List.flatMap_singleton, h.collisions, hcollisions, hconcat,
      List.find?_append, hcollides, h.collided]
    -- whether there was a collision before decides whether this one is the first
    cases hfind : (scope.declaredBy vs).find?
        (DeclaredVariable.collides scope.options.injectedBase) with
    | some u =>
      have hany : (scope.declaredBy vs).any
          (DeclaredVariable.collides scope.options.injectedBase) = true :=
        List.any_eq_true.2 ⟨u, List.mem_of_find?_eq_some hfind, List.find?_some hfind⟩
      simp [hany]
    | none =>
      have hany : (scope.declaredBy vs).any
          (DeclaredVariable.collides scope.options.injectedBase) = false := by
        rw [List.any_eq_false]
        exact List.find?_eq_none.1 hfind
      rw [hany]
      by_cases hv : DeclaredVariable.collides scope.options.injectedBase
          ⟨name, s.region, s.locals.next s.region⟩ = true
      · simp [hv]
      · simp [hv]

variable (scope)

/-- The declaration of a variable keeps the account, also if there is no index left. -/
theorem nameVariable_accounts {vs : List (Visit WalkAct)} {s : WalkState} (declaration : Node)
    (h : scope.Accounts vs s) :
    scope.Accounts
      (vs ++ [⟨.localVariable declaration, ((scope.nameVariable declaration).run s).journal⟩])
      ((scope.nameVariable declaration).run s).state := by
  cases hname : declaration.nameToken? with
  | none =>
    rw [scope.run_nameVariable_of_none hname s]
    apply h.concat_of_none (by simp [Visit.declared?, hname]) <;> rfl
  | some name =>
    rw [scope.run_nameVariable hname s]
    by_cases hlt : s.locals.next s.region < IndexTable.counterLimit
    · rw [if_pos hlt]
      have hrecords : (⟨.localVariable declaration,
          (if scope.collides s (s.locals.next s.region) then
            [.diagnostic (scope.warningAt name.start scope.describe (.indexCollision
              (s.locals.next s.region) name.text scope.options.injectedBase))] else []) ++
          [.record (scope.variableRecord name (s.locals.next s.region))]⟩ :
            Visit WalkAct).variableRecords =
          [scope.variableRecord name (s.locals.next s.region)] := by
        unfold Visit.variableRecords
        split <;> rfl
      refine h.concat_of_some name ?_ hrecords ?_ rfl rfl
      · simp only [Visit.declared?, hname, hrecords]
        rfl
      · unfold Visit.collisions
        split <;> rfl
    · rw [if_neg hlt]
      refine h.concat_of_none ?_ rfl rfl rfl rfl rfl
      simp only [Visit.declared?, hname]
      rfl

/-- Every act keeps the account, also one that stops. -/
theorem act_accounts (vs : List (Visit WalkAct)) (s : WalkState) (a : WalkAct)
    (h : scope.Accounts vs s) :
    scope.Accounts (vs ++ [⟨a, ((scope.act a).run s).journal⟩]) ((scope.act a).run s).state := by
  by_cases ha : a.declaresVariable = true
  · cases a with
    | localVariable declaration => exact scope.nameVariable_accounts declaration h
    | _ => cases ha
  · have ha' : a.declaresVariable = false := by simpa using ha
    have hnone : Code.indexCollision ∉ a.codes := by
      cases a <;> simp_all [WalkAct.codes, WalkAct.declaresVariable]
    obtain ⟨hlocals, hcollided, hregion⟩ := scope.act_leaves ha' s
    refine h.concat_of_none ?_ ?_ ?_ hlocals hcollided hregion
    · cases a with
      | localVariable declaration => cases ha'
      | _ => rfl
    · simp [Visit.variableRecords, ha']
    · unfold Visit.collisions
      rw [List.filter_eq_nil_iff]
      intro d hd hcode
      have hmem : d.code ∈ a.codes := scope.act_reportsOnly a s d hd
      rw [of_decide_eq_true hcode] at hmem
      exact hnone hmem

/-- A whole life keeps the account. -/
theorem live_accounts (calls : List WalkerCall) (vs : List (Visit WalkAct)) (s : WalkState)
    (h : scope.Accounts vs s) :
    scope.Accounts (vs ++ scope.lifeVisits calls s) ((scope.live calls).run s).state := by
  induction calls generalizing vs s with
  | nil => simpa [lifeVisits, live] using h
  | cons call rest ih =>
    have hcall := Scan.forM_visits_induction scope.act_accounts
      (call.acts scope.resolver.isClass) vs s h
    rw [← call_eq_acts] at hcall
    rw [live, Scan.forM_cons, Scan.run_bind, Outcome.andThen, lifeVisits]
    cases hresult : ((scope.call call).attempt.run s).result with
    | error stop =>
      simp only [List.append_nil]
      exact hcall
    | ok u =>
      have hrest := ih _ _ hcall
      rw [List.append_assoc] at hrest
      dsimp only
      exact hrest

end Scope

/-! ### The result -/

/-- Without a collision so far, the indices of all variables differ. -/
theorem Scope.Accounts.nodup {scope : Scope} {vs : List (Visit WalkAct)} {s : WalkState}
    (h : scope.Accounts vs s)
    (hnone : ∀ v ∈ scope.declaredBy vs, v.region = .normal →
      v.index < scope.options.injectedBase) :
    ((scope.declaredBy vs).map DeclaredVariable.index).Nodup := by
  have hinjected {v : DeclaredVariable} (hv : v ∈ scope.declaredBy vs)
      (hregion : v.region = .injected) : scope.options.injectedBase ≤ v.index := by
    have hfirst := h.first_le_index v hv
    rw [hregion] at hfirst
    exact hfirst
  rw [List.Nodup, List.pairwise_map]
  refine h.distinct.imp_of_mem fun {u v} hu hv hdistinct => ?_
  cases huregion : u.region with
  | normal =>
    have hlt := hnone u hu huregion
    cases hvregion : v.region with
    | normal => exact hdistinct (huregion.trans hvregion.symm)
    | injected => have := hinjected hv hvregion; omega
  | injected =>
    have hle := hinjected hu huregion
    cases hvregion : v.region with
    | normal => have := hnone v hv hvregion; omega
    | injected => exact hdistinct (huregion.trans hvregion.symm)

/-- Whatever a walker is called for, in whatever order and with whatever base of injected indices,
it reports a collision exactly if a variable of ordinary code gets an index from the base on. The
report is made once, at the first such variable, and without one all variables that the walker has
declared have different indices. -/
theorem index_collisions_are_reported (scope : Scope) (calls : List WalkerCall) :
    let journal := ((scope.live calls).run (.initial scope.options)).journal
    let visits := scope.lifeVisits calls (.initial scope.options)
    let declared := scope.declaredBy visits
    let collisions :=
      (Journal.diagnostics journal).filter fun d => decide (d.code = .indexCollision)
    journal = visits.flatMap Visit.journal ∧
    visits.flatMap Visit.variableRecords =
      declared.map (fun v => scope.variableRecord v.name v.index) ∧
    (collisions ≠ [] ↔
      ∃ v ∈ declared, v.region = .normal ∧ scope.options.injectedBase ≤ v.index) ∧
    collisions =
      ((declared.find? (DeclaredVariable.collides scope.options.injectedBase)).map
        scope.collisionWarning).toList ∧
    (collisions = [] → (declared.map DeclaredVariable.index).Nodup) := by
  intro journal visits declared collisions
  -- the account of a walker says what it has declared and the collision it has reported
  have haccounts := scope.live_accounts calls [] _ scope.accounts_initial
  rw [List.nil_append] at haccounts
  have hjournal : journal = visits.flatMap Visit.journal := scope.journal_live calls _
  have hcollisions : collisions =
      ((declared.find? (DeclaredVariable.collides scope.options.injectedBase)).map
        scope.collisionWarning).toList := by
    rw [← haccounts.collisions]
    show (Journal.diagnostics journal).filter _ = _
    rw [hjournal]
    unfold Journal.diagnostics Visit.collisions
    rw [List.filterMap_flatMap, List.filter_flatMap]
    rfl
  have hnone : collisions = [] ↔
      ∀ v ∈ declared, v.region = .normal → v.index < scope.options.injectedBase := by
    rw [hcollisions, Option.toList_eq_nil_iff, Option.map_eq_none_iff, List.find?_eq_none]
    simp [DeclaredVariable.collides]
  refine ⟨hjournal, haccounts.records, ?_, hcollisions, ?_⟩
  · rw [ne_eq, hnone]
    simp
  · intro h
    exact haccounts.nodup (hnone.1 h)

/-- Two variables, and a third whose type points at nothing known. -/
def unknownType : Node :=
  ⟨⟨0⟩, 0, .declarationStatement,
    [.node .localVariable [.token .ident "a"], .node .localVariable [.token .ident "b"],
      .node .localVariable [.node .type [.node .reference [.token .ident "T"]],
        .token .ident "c"]]⟩

/-- An injected variable, and two of ordinary code behind it. -/
def behindInjected : Node :=
  ⟨⟨0⟩, 10, .codeBlock,
    [.token .lineComment "// tag start",
      .node .declarationStatement [.node .localVariable [.token .ident "x"]],
      .token .lineComment "// tag end",
      .node .declarationStatement [.node .localVariable [.token .ident "d"]],
      .node .declarationStatement [.node .localVariable [.token .ident "e"]]]⟩

/-- The variables declared before a walk fails count as well: behind them the next two of ordinary
code reach the base, and the first of these is reported. -/
theorem index_collisions_are_reported_after_failure :
    let scope : Scope :=
      ⟨.ofText "A.java" "" Bindings.empty.resolver { injectedBase := 2 }, "A", ⟨"m", "()V"⟩⟩
    let calls := [WalkerCall.walk unknownType, .walk behindInjected]
    scope.declaredBy (scope.lifeVisits calls (.initial scope.options)) =
      [⟨⟨0, .ident, "a"⟩, .normal, 0⟩, ⟨⟨1, .ident, "b"⟩, .normal, 1⟩,
        ⟨⟨22, .ident, "x"⟩, .injected, 2⟩, ⟨⟨33, .ident, "d"⟩, .normal, 2⟩,
        ⟨⟨34, .ident, "e"⟩, .normal, 3⟩] ∧
    (Journal.diagnostics ((scope.live calls).run (.initial scope.options)).journal).filter
        (fun d => decide (d.code = .indexCollision)) =
      [scope.collisionWarning ⟨⟨33, .ident, "d"⟩, .normal, 2⟩] := by
  intro scope calls
  have hdeclared : scope.declaredBy (scope.lifeVisits calls (.initial scope.options)) =
      [⟨⟨0, .ident, "a"⟩, .normal, 0⟩, ⟨⟨1, .ident, "b"⟩, .normal, 1⟩,
        ⟨⟨22, .ident, "x"⟩, .injected, 2⟩, ⟨⟨33, .ident, "d"⟩, .normal, 2⟩,
        ⟨⟨34, .ident, "e"⟩, .normal, 3⟩] := by
    decide +kernel
  refine ⟨hdeclared, ?_⟩
  rw [(index_collisions_are_reported scope calls).2.2.2.1, hdeclared]
  rfl

end SymbolRanges

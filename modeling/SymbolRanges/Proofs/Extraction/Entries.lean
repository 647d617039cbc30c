import SymbolRanges.Proofs.Extraction.Coverage
import SymbolRanges.Proofs.Walk.Acts

/-!
# What a file tells about its declarations

Of everything that the extraction of a file writes down, two kinds of entries concern names: the
records, and the warnings that a name is missing. A declaration contributes one such entry of its
own, and the code in it contributes others. `FileContext.scanDeclaration_yields` tells them apart:
what a declaration writes is, in some order, its own entries and those of its code.
-/

set_option autoImplicit false

namespace SymbolRanges

/-! ### Entries that concern names -/

/-- Whether an entry is a record, or a warning that a name is missing. -/
def Entry.concernsName : Entry → Bool
  | .record _ => true
  | .diagnostic d => decide (d.code = .missingName)
  | .note _ => false

/-- The entries of a journal that concern names. -/
def Journal.naming (journal : Journal) : List Entry := journal.filter Entry.concernsName

/-- The naming entries of two journals in a row are those of the one and then of the other. -/
@[simp] theorem Journal.naming_append (xs ys : Journal) :
    naming (xs ++ ys) = naming xs ++ naming ys := by
  simp [naming]

/-- All records are among the entries that concern names. -/
theorem Journal.filterMap_record?_naming (journal : Journal) :
    (naming journal).filterMap Entry.record? = records journal := by
  unfold naming records
  rw [List.filterMap_filter]
  congr
  funext entry
  cases entry <;> simp [Entry.concernsName, Entry.record?]

/-- Of the diagnostics, those about missing names are among the entries that concern names. -/
theorem Journal.filterMap_diagnostic?_naming (journal : Journal) :
    (naming journal).filterMap Entry.diagnostic? =
      (diagnostics journal).filter fun d => decide (d.code = .missingName) := by
  unfold naming diagnostics
  rw [List.filterMap_filter, List.filter_filterMap]
  congr
  funext entry
  cases entry with
  | diagnostic d =>
    by_cases h : d.code = .missingName <;>
      simp [Entry.concernsName, Entry.diagnostic?, Option.filter, h]
  | _ => rfl

namespace Scan

variable {σ τ α β : Type} {P Q : Entry → Prop} {own others : List Entry}

/-- A scan that gives a value writes, of the entries that concern names, given ones and others with
a property. -/
def Yields (own : List Entry) (P : Entry → Prop) (x : Scan σ α) : Prop :=
  ∀ s a, (x.run s).result = .ok a → ∃ others,
    (Journal.naming (x.run s).journal).Perm (own ++ others) ∧ ∀ entry ∈ others, P entry

namespace Yields

/-- A weaker property may be asked of the other entries. -/
theorem mono {x : Scan σ α} (hx : x.Yields own P) (h : ∀ entry, P entry → Q entry) :
    x.Yields own Q := by
  intro s a hok
  obtain ⟨others, hperm, hothers⟩ := hx s a hok
  exact ⟨others, hperm, fun entry hentry => h entry (hothers entry hentry)⟩

/-- A scan may yield no entry in particular if all that it writes has the property. -/
theorem of_only {x : Scan σ α} (h : ∀ s, ∀ entry ∈ Journal.naming (x.run s).journal, P entry) :
    x.Yields [] P :=
  fun s _ _ => ⟨_, List.Perm.refl _, h s⟩

/-- A scan that writes nothing about names yields nothing. -/
theorem of_nil {x : Scan σ α} (h : ∀ s, Journal.naming (x.run s).journal = []) :
    x.Yields [] P :=
  of_only fun s _ hentry => absurd (h s ▸ hentry) List.not_mem_nil

/-- An entry that concerns names is yielded. -/
theorem write {entry : Entry} (h : entry.concernsName = true) :
    (Scan.write entry : Scan σ Unit).Yields [entry] P := by
  intro s a _
  refine ⟨[], ?_, fun _ hmem => absurd hmem List.not_mem_nil⟩
  simp [Journal.naming, h]

/-- A scan that fails gives no value, so that it may yield anything. -/
theorem fail (failure : FileFailure) (message : String) :
    (Scan.fail failure message : Scan σ α).Yields own P := by
  intro s a hok
  cases hok

/-- Two scans in a row yield what the one yields and then what the other does. -/
theorem bind {x : Scan σ α} {f : α → Scan σ β} (hx : x.Yields own P)
    (hf : ∀ a, (f a).Yields others P) : (x >>= f).Yields (own ++ others) P := by
  intro s b hok
  obtain ⟨a, hxok, hfok⟩ := result_bind_eq_ok hok
  obtain ⟨rest, hperm, hrest⟩ := hx s a hxok
  obtain ⟨rest', hperm', hrest'⟩ := hf a _ b hfok
  rw [run_bind_of_ok hxok, Journal.naming_append]
  refine ⟨rest ++ rest', (hperm.append hperm').trans ?_, ?_⟩
  · rw [List.perm_iff_count]
    intro entry
    simp only [List.count_append]
    omega
  · intro entry hentry
    rcases List.mem_append.1 hentry with h | h
    · exact hrest entry h
    · exact hrest' entry h

/-- A loop yields what its steps yield. -/
theorem forM {f : α → Scan σ Unit} {given : α → List Entry} (xs : List α)
    (h : ∀ x ∈ xs, (f x).Yields (given x) P) : (xs.forM f).Yields (xs.flatMap given) P := by
  induction xs with
  | nil => exact of_nil fun _ => rfl
  | cons x rest ih =>
    have hrest := ih fun y hy => h y (List.mem_cons_of_mem x hy)
    exact (h x List.mem_cons_self).bind fun _ => hrest

/-- A loop whose steps yield nothing in particular does not either. -/
theorem forM_nil {f : α → Scan σ Unit} (xs : List α) (h : ∀ x ∈ xs, (f x).Yields [] P) :
    (xs.forM f).Yields [] P := by
  have hforM := forM xs h
  rwa [List.flatMap_eq_nil_iff.2 fun _ _ => rfl] at hforM

/-- A walker of its own yields what its scan does. -/
theorem fresh {x : Scan τ α} (hx : x.Yields own P) (initial : τ) :
    (Scan.fresh initial x : Scan σ α).Yields own P := by
  intro s a hok
  exact hx initial a hok

end Yields

end Scan

/-! ### Slots for names -/

/-- A node that should have a name: what it declares under a name, and the warning about it if it
has none. -/
structure NameSlot where
  node : Node
  identity : String → Identity
  warning : Diagnostic

namespace NameSlot

/-- The name of a slot with what it declares, if it has a name. -/
def declared? (slot : NameSlot) : Option (Token × Identity) :=
  slot.node.nameToken?.map fun name => (name, slot.identity name.text)

/-- The entry of a slot: the record of its name, or the warning that it has none. -/
def entry (context : FileContext) (slot : NameSlot) : Entry :=
  match slot.node.nameToken? with
  | some name => .record (context.recordAt name.span (slot.identity name.text))
  | none => .diagnostic slot.warning

/-- Whether a slot has no name. -/
def isNameless (slot : NameSlot) : Bool := slot.node.nameToken?.isNone

/-- The records of slots are those of the names that are there. -/
theorem filterMap_record?_entry (context : FileContext) (slots : List NameSlot) :
    (slots.map (entry context)).filterMap Entry.record? =
      (slots.filterMap declared?).map fun v => context.recordAt v.1.span v.2 := by
  rw [List.filterMap_map, List.map_filterMap]
  congr
  funext slot
  cases hname : slot.node.nameToken? <;> simp [entry, declared?, hname, Entry.record?]

/-- The diagnostics of slots are the warnings of those without a name. -/
theorem filterMap_diagnostic?_entry (context : FileContext) (slots : List NameSlot) :
    (slots.map (entry context)).filterMap Entry.diagnostic? =
      (slots.filter isNameless).map warning := by
  induction slots with
  | nil => rfl
  | cons slot rest ih =>
    rw [List.map_cons, List.filterMap_cons, List.filter_cons, ih]
    cases hname : slot.node.nameToken? <;> simp [entry, isNameless, hname, Entry.diagnostic?]

end NameSlot

/-- The slot of a class or member. -/
def FileContext.slot (context : FileContext) (what : String) (n : Node)
    (identity : String → Identity) : NameSlot :=
  ⟨n, identity, context.warningAt n.start "" (.namelessDeclaration what)⟩

/-- The slot of the parameter of a method with a given index. -/
def Scope.parameterSlot (scope : Scope) (index : Nat) (p : Node) : NameSlot :=
  ⟨p, fun name => .parameter (scope.localName name (some index)),
    scope.warningAt p.start scope.describe (.namelessVariable "parameter")⟩

/-- The slots of the parameters of a method. -/
def Scope.parameterSlots (scope : Scope) (n : Node) : List NameSlot :=
  n.parameters.zipIdx.map fun (p, index) => scope.parameterSlot index p

/-! ### The entries of code -/

/-- An entry about a symbol that is named in a stretch of code, or about a variable there that has
no name. -/
def FileContext.WrittenIn (context : FileContext) (part : Node) : Entry → Prop
  | .record r => context.RecordedIn part r
  | .diagnostic d => ∃ m ∈ part.descendants, ∃ v ∈ m.variableNodes, v.nameToken? = none ∧
    ∃ owner method, d = context.warningAt v.start (scopeText owner method)
      (.namelessVariable "local variable")
  | .note _ => False

namespace Scope

variable (scope : Scope)

/-- An act reports a missing name only if it declares a variable without one. -/
theorem act_reportsOnly_missingName {a : WalkAct} (ha : ∀ index p, a ≠ .parameter index p) :
    (scope.act a).ReportsOnly fun d => d.code = .missingName →
      ∃ v, a = .localVariable v ∧ v.nameToken? = none ∧
        d = scope.warningAt v.start scope.describe (.namelessVariable "local variable") := by
  intro s d hd hcode
  have hmem : d.code ∈ a.codes := scope.act_reportsOnly a s d hd
  rw [hcode] at hmem
  cases a with
  | localVariable v =>
    refine ⟨v, rfl, ?_⟩
    rw [act] at hd
    cases hname : v.nameToken? with
    | none =>
      rw [scope.run_nameVariable_of_none hname] at hd
      exact ⟨rfl, List.mem_singleton.1 hd⟩
    | some name =>
      rw [scope.run_nameVariable hname] at hd
      split at hd
      · split at hd
        · rw [List.mem_singleton.1 hd] at hcode
          cases hcode
        · cases hd
      · cases hd
  | parameter index p => exact absurd rfl (ha index p)
  | _ => simp [WalkAct.codes] at hmem

/-- Of missing names a walk reports only those of the variables in the code. -/
theorem walk_reportsOnly_missingName (part : Node) :
    (scope.walk part).ReportsOnly fun d => d.code = .missingName →
      scope.WrittenIn part (.diagnostic d) := by
  rw [walk_eq_acts]
  refine Scan.ReportsOnly.forM _ fun a ha => ?_
  obtain ⟨item, hitem, hact⟩ := List.mem_flatMap.1 ha
  cases item with
  | token t =>
    rw [List.mem_singleton.1 hact]
    refine (scope.act_reportsOnly_missingName (by simp)).mono fun d hd hcode => ?_
    obtain ⟨v, heq, -⟩ := hd hcode
    cases heq
  | node m =>
    -- the parameters of methods are no items of a walk
    have hparameter (index : Nat) (p : Node) : a ≠ .parameter index p := by
      rintro rfl
      obtain ⟨-, heq⟩ | ⟨v, -, hv⟩ | ⟨element, heq⟩ := Node.mem_visitActs hact
      · cases heq
      · obtain heq | ⟨type, -, reference, -, heq⟩ := Node.mem_variableActs hv <;> cases heq
      · cases heq
    refine (scope.act_reportsOnly_missingName hparameter).mono fun d hd hcode => ?_
    obtain ⟨v, rfl, hname, hwarning⟩ := hd hcode
    refine ⟨m, Node.mem_descendants_iff.2 hitem, v, ?_, hname, scope.className, scope.method,
      hwarning⟩
    obtain ⟨-, heq⟩ | ⟨u, hu, hact⟩ | ⟨element, heq⟩ := Node.mem_visitActs hact
    · cases heq
    · obtain heq | ⟨type, -, reference, -, heq⟩ := Node.mem_variableActs hact
      · cases heq
        exact hu
      · cases heq
    · cases heq

/-- Recording a type reports nothing but references that do not resolve. -/
theorem recordType_reportsOnly (type : Node) :
    (scope.recordType type).ReportsOnly fun d => d.code = .unresolvedReference := by
  refine Scan.ReportsOnly.forM _ fun reference _ => ?_
  exact (scope.act_reportsOnly (.typeReference reference)).mono fun d hd => List.mem_singleton.1 hd

end Scope

/-- What a scan records and reports is all that it writes about names. -/
theorem FileContext.yields_of_only {context : FileContext} {σ α : Type} {x : Scan σ α} {part : Node}
    (hrecords : x.RecordsOnly (context.RecordedIn part))
    (hreports : x.ReportsOnly fun d => d.code = .missingName →
      context.WrittenIn part (.diagnostic d)) : x.Yields [] (context.WrittenIn part) := by
  apply Scan.Yields.of_only
  intro s entry hentry
  obtain ⟨hmem, hconcerns⟩ := List.mem_filter.1 hentry
  cases entry with
  | record r => exact hrecords s r (List.mem_filterMap.2 ⟨_, hmem, rfl⟩)
  | diagnostic d =>
    exact hreports s d (List.mem_filterMap.2 ⟨_, hmem, rfl⟩) (of_decide_eq_true hconcerns)
  | note event => cases hconcerns

/-- An entry about one of several stretches of code. -/
def FileContext.WrittenInSome (context : FileContext) (parts : List Node) (entry : Entry) : Prop :=
  ∃ part ∈ parts, context.WrittenIn part entry

namespace Scope

variable (scope : Scope) {parts : List Node} {n : Node}

/-- A walk writes about names only what is in its code. -/
theorem walk_yields {part : Node} (hpart : part ∈ parts) :
    (scope.walk part).Yields [] (scope.WrittenInSome parts) := by
  have hwalk : (scope.walk part).Yields [] (scope.WrittenIn part) :=
    FileContext.yields_of_only (scope.walk_recordsOnly part)
      (scope.walk_reportsOnly_missingName part)
  exact hwalk.mono fun entry hentry => ⟨part, hpart, hentry⟩

/-- The walk of a part of a declaration writes about names only what is in the part. -/
theorem walkPart_yields {kind : Kind} (h : ∀ part, n.child? kind = some part → part ∈ parts) :
    (scope.walkPart n kind).Yields [] (scope.WrittenInSome parts) := by
  unfold walkPart
  split
  · next part hpart => exact scope.walk_yields (h part hpart)
  · exact .of_nil fun _ => rfl

/-- The type of a declaration writes about names only what is in the type. -/
theorem recordDeclaredType_yields (h : ∀ part, n.child? .type = some part → part ∈ parts) :
    (scope.recordDeclaredType n).Yields [] (scope.WrittenInSome parts) := by
  unfold recordDeclaredType
  split
  · next type htype =>
    have hnone : (scope.recordType type).ReportsOnly fun d => d.code = .missingName →
        scope.WrittenIn type (.diagnostic d) := by
      refine (scope.recordType_reportsOnly type).mono fun d hd hcode => ?_
      rw [hd] at hcode
      cases hcode
    have hyields : (scope.recordType type).Yields [] (scope.WrittenIn type) :=
      FileContext.yields_of_only (scope.recordType_recordsOnly type) hnone
    exact hyields.mono fun entry hentry => ⟨type, h type htype, hentry⟩
  · exact .of_nil fun _ => rfl

/-- A parameter yields the entry of its slot. -/
theorem introduceParameter_yields (index : Nat) {p : Node} (h : ∀ c ∈ p.childNodes, c ∈ parts) :
    (scope.introduceParameter index p).Yields
      [(scope.parameterSlot index p).entry scope.toFileContext] (scope.WrittenInSome parts) := by
  have hname : (scope.nameParameter index p).Yields
      [(scope.parameterSlot index p).entry scope.toFileContext] (scope.WrittenInSome parts) := by
    unfold nameParameter NameSlot.entry parameterSlot
    cases p.nameToken? with
    | none => exact .write rfl
    | some name => exact Scan.Yields.bind (.of_nil fun _ => rfl) fun _ => .write rfl
  have hpart {kind : Kind} (part : Node) (hpart : p.child? kind = some part) : part ∈ parts :=
    h part (Node.mem_childNodes_of_child? hpart)
  have hmodifiers : (scope.walkPart p .modifierList).Yields [] (scope.WrittenInSome parts) :=
    scope.walkPart_yields hpart
  have htype := scope.recordDeclaredType_yields (n := p) hpart
  exact hmodifiers.bind fun _ => htype.bind fun _ => hname

end Scope

/-! ### The entries of a declaration -/

/-- The parts of a method that are walked or recorded, but for its parameters. -/
def Node.methodParts (n : Node) : List Node :=
  [Kind.modifierList, .typeParameterList, .type, .throwsList, .codeBlock].flatMap fun kind =>
    (n.child? kind).toList

/-- The parts of a declaration that hold its code and its types. A class, an enum constant or a
method without a name is passed over with everything in it. -/
def Declaration.code : Declaration → List Node
  | .classDecl _ n => if n.nameToken?.isSome then n.header else []
  | .field _ n => n.childNodes
  | .enumConstant _ n => if n.nameToken?.isSome then n.childNodes else []
  | .method _ n =>
    if n.nameToken?.isSome then n.methodParts ++ n.parameters.flatMap Node.childNodes else []
  | .initializer _ n => [n]

namespace FileContext

variable (context : FileContext)

/-- The signature of a method; a method with a name and unknown types fails the file. -/
def signature (n : Node) : String :=
  match context.resolver.methodType? n with
  | some type => type.descriptor
  | none => ""

/-- The slots of a declaration: its own, and those of the parameters of a method with a name. -/
def slots : Declaration → List NameSlot
  | .classDecl qualifier n =>
    [context.slot "class" n fun name => .classDecl (qualify qualifier name)]
  | .field owner n => [context.slot "field" n (.field owner)]
  | .enumConstant owner n => [context.slot "enum constant" n (.field owner)]
  | .method owner n =>
    context.slot "method" n (fun name => .method owner name (context.signature n)) ::
      n.nameToken?.toList.flatMap fun name =>
        Scope.parameterSlots ⟨context, owner, ⟨name.text, context.signature n⟩⟩ n
  | .initializer _ _ => []

/-- The slots of all declarations of a file. -/
def fileSlots (root : Node) : List NameSlot := root.declarations.flatMap context.slots

/-- The entries of a declaration itself. -/
def declarationEntries (d : Declaration) : List Entry :=
  (context.slots d).map (NameSlot.entry context)

/-- The record of a name fills its slot. -/
theorem record_yields {σ : Type} {P : Entry → Prop} {n : Node} {name : Token}
    (hname : n.nameToken? = some name) (what : String) (identity : String → Identity) :
    (context.record name.span (identity name.text) : Scan σ Unit).Yields
      [(context.slot what n identity).entry context] P := by
  have hentry : (context.slot what n identity).entry context =
      .record (context.recordAt name.span (identity name.text)) := by
    simp [NameSlot.entry, slot, hname]
  rw [hentry]
  exact .write rfl

/-- The warning about a missing name fills its slot. -/
theorem warnNameless_yields {σ : Type} {P : Entry → Prop} {n : Node}
    (hname : n.nameToken? = none) (what : String) (identity : String → Identity) :
    (context.warnNameless n what : Scan σ Unit).Yields
      [(context.slot what n identity).entry context] P := by
  have hentry : (context.slot what n identity).entry context =
      .diagnostic (context.warningAt n.start "" (.namelessDeclaration what)) := by
    simp [NameSlot.entry, slot, hname]
  rw [hentry]
  exact .write rfl

/-- Code outside of methods yields nothing in particular. -/
theorem walkOutside_yields (owner : String) (parts : List Node) :
    (context.walkOutside owner fun scope => parts.forM scope.walk).Yields []
      (context.WrittenInSome parts) := by
  have hwalks : (parts.forM (Scope.walk ⟨context, owner, .outsideMethod⟩)).Yields []
      (context.WrittenInSome parts) :=
    .forM_nil parts fun part hpart => Scope.walk_yields _ hpart
  exact hwalks.fresh _

/-- The scan of a class yields the entry of its name. -/
theorem scanClass_yields (qualifier : Option String) (n : Node) :
    (context.scanClass qualifier n).Yields (context.declarationEntries (.classDecl qualifier n))
      (context.WrittenInSome (Declaration.classDecl qualifier n).code) := by
  rw [scanClass, Declaration.code]
  cases hname : n.nameToken? with
  | none => exact context.warnNameless_yields hname "class" _
  | some name =>
    exact (context.record_yields hname "class" _).bind fun _ =>
      context.walkOutside_yields _ n.header

/-- The scan of an enum constant yields the entry of its name. -/
theorem scanEnumConstant_yields (owner : String) (n : Node) :
    (context.scanEnumConstant owner n).Yields (context.declarationEntries (.enumConstant owner n))
      (context.WrittenInSome (Declaration.enumConstant owner n).code) := by
  rw [scanEnumConstant, Declaration.code]
  cases hname : n.nameToken? with
  | none => exact context.warnNameless_yields hname "enum constant" _
  | some name =>
    exact (context.record_yields hname "enum constant" (.field owner)).bind fun _ =>
      context.walkOutside_yields _ n.childNodes

/-- The scan of a field yields the entry of its name. -/
theorem scanField_yields (owner : String) (n : Node) :
    (context.scanField owner n).Yields (context.declarationEntries (.field owner n))
      (context.WrittenInSome (Declaration.field owner n).code) := by
  let scope : Scope := ⟨context, owner, .outsideMethod⟩
  have hpart {kind : Kind} (part : Node) (hpart : n.child? kind = some part) :
      part ∈ n.childNodes := Node.mem_childNodes_of_child? hpart
  have hmodifiers : (scope.walkPart n .modifierList).Yields []
      (context.WrittenInSome n.childNodes) := scope.walkPart_yields hpart
  have htype : (scope.recordDeclaredType n).Yields [] (context.WrittenInSome n.childNodes) :=
    scope.recordDeclaredType_yields hpart
  have hinitializer {i : Node} (hi : n.initializer? = some i) :
      (scope.walk i).Yields [] (context.WrittenInSome n.childNodes) :=
    scope.walk_yields (Node.initializer?_mem_childNodes hi)
  refine Scan.Yields.fresh (hmodifiers.bind fun _ => htype.bind fun _ => ?_) _
  -- a field without a name is walked through all the same
  cases hname : n.nameToken? with
  | none =>
    refine (context.warnNameless_yields hname "field" (.field owner)).bind fun _ => ?_
    split
    · exact .of_nil fun _ => rfl
    · next hi => exact hinitializer hi
  | some name =>
    refine (context.record_yields hname "field" (.field owner)).bind fun _ => ?_
    split
    · exact .of_nil fun _ => rfl
    · next hi => exact hinitializer hi

/-- The walk through a method has the entries of its parameters. -/
theorem walkMethod_yields (scope : Scope) (n : Node) :
    (walkMethod n scope).Yields
      ((scope.parameterSlots n).map (NameSlot.entry scope.toFileContext))
      (scope.WrittenInSome (n.methodParts ++ n.parameters.flatMap Node.childNodes)) := by
  have hpart (kind : Kind)
      (hkind : kind ∈ [Kind.modifierList, .typeParameterList, .type, .throwsList, .codeBlock])
      (part : Node) (hpart : n.child? kind = some part) :
      part ∈ n.methodParts ++ n.parameters.flatMap Node.childNodes :=
    List.mem_append_left _ (List.mem_flatMap.2 ⟨kind, hkind, Option.mem_toList.2 hpart⟩)
  have hparameters : (introduceParameters scope n.parameters).Yields
      ((scope.parameterSlots n).map (NameSlot.entry scope.toFileContext))
      (scope.WrittenInSome (n.methodParts ++ n.parameters.flatMap Node.childNodes)) := by
    unfold introduceParameters Scope.parameterSlots
    rw [List.map_map, ← List.flatMap_singleton' (n.parameters.zipIdx.map _), List.flatMap_map]
    refine .forM _ fun ⟨p, index⟩ hp => ?_
    refine scope.introduceParameter_yields index fun c hc => ?_
    have hmem : p ∈ n.parameters := List.fst_mem_of_mem_zipIdx hp
    exact List.mem_append_right _ (List.mem_flatMap.2 ⟨p, hmem, hc⟩)
  have hmodifiers := scope.walkPart_yields (hpart .modifierList (by simp))
  have htypeParameters := scope.walkPart_yields (hpart .typeParameterList (by simp))
  have htype := scope.recordDeclaredType_yields (hpart .type (by simp))
  have hthrows := scope.walkPart_yields (hpart .throwsList (by simp))
  have hbody := scope.walkPart_yields (hpart .codeBlock (by simp))
  have hrest := hparameters.bind fun _ => hthrows.bind fun _ => hbody
  rw [List.append_nil, List.append_nil] at hrest
  exact hmodifiers.bind fun _ => htypeParameters.bind fun _ => htype.bind fun _ => hrest

/-- The scan of a method yields the entries of its name and of its parameters. -/
theorem scanMethod_yields (owner : String) (n : Node) :
    (context.scanMethod owner n).Yields (context.declarationEntries (.method owner n))
      (context.WrittenInSome (Declaration.method owner n).code) := by
  rw [scanMethod, Declaration.code, declarationEntries, slots]
  cases hname : n.nameToken? with
  | none => exact context.warnNameless_yields hname "method" _
  | some name =>
    dsimp only
    cases htype : context.resolver.methodType? n with
    | none => exact .fail _ _
    | some type =>
      have hsignature : context.signature n = type.descriptor := by simp [signature, htype]
      let scope : Scope := ⟨context, owner, ⟨name.text, type.descriptor⟩⟩
      have hwalk : (context.walkIn owner ⟨name.text, type.descriptor⟩ (walkMethod n)).Yields
          ((scope.parameterSlots n).map (NameSlot.entry context))
          (context.WrittenInSome (n.methodParts ++ n.parameters.flatMap Node.childNodes)) :=
        (walkMethod_yields scope n).fresh _
      have hrecord := context.record_yields (σ := Unit)
        (P := context.WrittenInSome (n.methodParts ++ n.parameters.flatMap Node.childNodes)) hname
        "method" fun name => .method owner name type.descriptor
      rw [hsignature, Option.toList_some, List.flatMap_singleton, List.map_cons]
      exact hrecord.bind fun _ => hwalk

/-- What a declaration writes about names are its own entries and those of its code. -/
theorem scanDeclaration_yields (d : Declaration) :
    (context.scanDeclaration d).Yields (context.declarationEntries d)
      (context.WrittenInSome d.code) := by
  cases d with
  | classDecl qualifier n => exact context.scanClass_yields qualifier n
  | field owner n => exact context.scanField_yields owner n
  | enumConstant owner n => exact context.scanEnumConstant_yields owner n
  | method owner n => exact context.scanMethod_yields owner n
  | initializer owner n =>
    have hwalk : (Scope.walk ⟨context, owner, .classInitializer⟩ n).Yields []
        (context.WrittenInSome [n]) := Scope.walk_yields _ (List.mem_singleton_self n)
    exact hwalk.fresh _

/-! ### The entries of a file -/

end FileContext

/-- The package statement of a file and its imports. -/
def Node.headStatements (root : Node) : List Node :=
  (root.child? .packageStatement).toList ++ root.childrenOfKind .importStatement

namespace FileContext

variable (context : FileContext)

/-- A record of the reference of a package statement or an import. -/
def WrittenInHead (root : Node) (entry : Entry) : Prop :=
  ∃ statement ∈ root.headStatements, ∃ reference identity,
    statement.child? .reference = some reference ∧
      entry = .record (context.recordAt reference.span identity)

/-- The record of a reference of the head is one of the head. -/
theorem record_head_yields {root statement reference : Node}
    (hs : statement ∈ root.headStatements) (hr : statement.child? .reference = some reference)
    (identity : Identity) :
    (context.record reference.span identity : FileScan Unit).Yields []
      (context.WrittenInHead root) := by
  apply Scan.Yields.of_only
  intro s entry hentry
  rw [List.mem_singleton.1 hentry]
  exact ⟨statement, hs, reference, identity, hr, rfl⟩

/-- The package statement writes only about the head. -/
theorem recordPackage_yields (root : Node) :
    (context.recordPackage root).Yields [] (context.WrittenInHead root) := by
  unfold recordPackage
  split
  · split
    · next reference h =>
      obtain ⟨statement, hs, hr⟩ := Option.bind_eq_some_iff.1 h
      have hmem := List.mem_append_left (root.childrenOfKind .importStatement)
        (Option.mem_toList.2 hs)
      exact context.record_head_yields hmem hr _
    · exact .of_nil fun _ => rfl
  · exact .of_nil fun _ => rfl

/-- The imports write only about the head. -/
theorem recordImports_yields (root : Node) :
    (context.recordImports root).Yields [] (context.WrittenInHead root) := by
  unfold recordImports
  split
  · refine .forM_nil _ fun statement hs => ?_
    unfold recordImport
    split
    · next reference hr => exact context.record_head_yields (List.mem_append_right _ hs) hr _
    · exact .of_nil fun _ => rfl
  · exact .of_nil fun _ => rfl

/-- What a file writes about names are the entries of its declarations, those of their code and
those of its head. -/
theorem scanRoot_yields (root : Node) :
    (context.scanRoot root).Yields ((context.fileSlots root).map (NameSlot.entry context))
      fun entry => context.WrittenInHead root entry ∨
        ∃ d ∈ root.declarations, context.WrittenInSome d.code entry := by
  have hslots : (context.fileSlots root).map (NameSlot.entry context) =
      root.declarations.flatMap context.declarationEntries := List.map_flatMap
  rw [hslots]
  unfold scanRoot
  split
  · exact .fail _ _
  · refine ((context.recordPackage_yields root).mono fun _ => .inl).bind fun _ => ?_
    refine ((context.recordImports_yields root).mono fun _ => .inl).bind fun _ => ?_
    refine .forM _ fun d hd => ?_
    exact (context.scanDeclaration_yields d).mono fun _ hentry => .inr ⟨d, hd, hentry⟩

end FileContext

end SymbolRanges

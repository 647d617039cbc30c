import SymbolRanges.Proofs.Extraction.Coverage
import SymbolRanges.Proofs.Walk.Comparison

/-!
# Two extractions side by side

What two walks share (`Comparison`) carries over to whole files: related declarations are extracted
alike (`Comparison.scanDeclaration`), and so are the declarations of two files one after the other.
Only the records at the head of a file, of its package and its imports, depend on options of their
own. `FileContext.headRecords` is what is recorded there, and `Comparison.scanRoot` splits the
extraction of a file into the head and the rest.
-/

set_option autoImplicit false

namespace SymbolRanges

/-! ### The head of a file -/

namespace Journal

/-- Entries that are records are all recorded. -/
theorem records_map_record (rs : List Record) : records (rs.map .record) = rs := by
  unfold records
  rw [List.filterMap_map]
  exact List.filterMap_some

/-- Entries that are records report nothing. -/
theorem diagnostics_map_record (rs : List Record) : diagnostics (rs.map .record) = [] := by
  unfold diagnostics
  rw [List.filterMap_map, List.filterMap_eq_nil_iff]
  exact fun _ _ => rfl

end Journal

namespace FileContext

variable (context : FileContext)

/-- The record of the package of a file, if it names one. -/
def packageRecords (root : Node) : List Record :=
  ((root.child? .packageStatement).bind fun statement => statement.child? .reference).toList.map
    fun reference => context.recordAt reference.span (.package root.packageName)

/-- The record of an import, if it names a class. -/
def importRecord? (statement : Node) : Option Record :=
  (statement.child? .reference).map fun reference =>
    context.recordAt reference.span (.classDecl reference.spelling)

/-- The records of the imports of a file, in order. -/
def importRecords (root : Node) : List Record :=
  (root.childrenOfKind .importStatement).filterMap context.importRecord?

/-- What is recorded at the head of a file: the package and the imports, each if the options ask for
it. -/
def headRecords (root : Node) : List Record :=
  (if context.options.recordsPackage then context.packageRecords root else []) ++
    if context.options.recordsImports then context.importRecords root else []

/-- The package statement writes the record of the package and nothing else. -/
theorem run_recordPackage (root : Node) (s : Unit) :
    (context.recordPackage root).run s =
      ⟨(if context.options.recordsPackage then context.packageRecords root else []).map .record, s,
        .ok ()⟩ := by
  unfold recordPackage packageRecords
  split
  · cases (root.child? .packageStatement).bind fun statement => statement.child? .reference <;> rfl
  · rfl

/-- An import writes its record, if it names a class, and nothing else. -/
theorem run_recordImport (statement : Node) (s : Unit) :
    (context.recordImport statement).run s =
      ⟨(context.importRecord? statement).toList.map .record, s, .ok ()⟩ := by
  unfold recordImport importRecord?
  cases statement.child? .reference <;> rfl

/-- A row of imports writes the records of those that name a class, in order. -/
theorem run_forM_recordImport (statements : List Node) (s : Unit) :
    (statements.forM context.recordImport).run s =
      ⟨(statements.filterMap context.importRecord?).map .record, s, .ok ()⟩ := by
  induction statements with
  | nil => rfl
  | cons statement rest ih =>
    rw [Scan.forM_cons, Scan.run_bind, run_recordImport, Outcome.andThen]
    dsimp only
    rw [ih, List.filterMap_cons]
    cases context.importRecord? statement <;> rfl

/-- The imports of a file write their records in order and nothing else. -/
theorem run_recordImports (root : Node) (s : Unit) :
    (context.recordImports root).run s =
      ⟨(if context.options.recordsImports then context.importRecords root else []).map .record, s,
        .ok ()⟩ := by
  unfold recordImports
  split
  · exact context.run_forM_recordImport _ s
  · rfl

/-- A well-formed file is recorded from its head on, and then declaration by declaration. -/
theorem run_scanRoot_of_wellFormed {root : Node} (h : root.malformation? = none) (s : Unit) :
    (context.scanRoot root).run s =
      ⟨(context.headRecords root).map .record ++
          ((root.declarations.forM context.scanDeclaration).run s).journal, s,
        ((root.declarations.forM context.scanDeclaration).run s).result⟩ := by
  unfold scanRoot headRecords
  rw [h]
  dsimp only
  rw [Scan.run_bind, run_recordPackage, Outcome.andThen]
  dsimp only
  rw [Scan.run_bind, run_recordImports, Outcome.andThen]
  dsimp only
  rw [List.map_append, List.append_assoc]

end FileContext

/-- A reason to stop with another offset, if it has one. -/
def Stop.withOffset (offset : Nat) : Stop → Stop
  | .failed failure => .failed (failure.withOffset offset)
  | .indexOverflow => .indexOverflow

namespace Comparison

variable {left right : FileContext} {C : Comparison left right} {m n : Node} {s t : Token}

/-- Two extractions at the level of files that go alike. -/
abbrev Files (C : Comparison left right) (x y : FileScan Unit) : Prop := C.Scans Eq Eq x y

/-- The walkers of two declarations start alike. -/
theorem initial : C.States (.initial left.options) (.initial right.options) where
  region := rfl
  next region := by
    cases region with
    | normal => rfl
    | injected => exact C.base_eq
  collided := rfl
  locals _ := rfl
  parameters _ := rfl

/-- Walkers that go alike from their start leave the scans around them alike. -/
theorem walkIn {owner : String} {method : MethodLabel} {steps steps' : Scope → Walk Unit}
    (h : C.Walks (steps (C.leftScope owner method)) (steps' (C.rightScope owner method))) :
    C.Files (left.walkIn owner method steps) (right.walkIn owner method steps') :=
  Scan.Alike.fresh h initial

/-- The warnings about two nodes without a name are alike. -/
theorem warnNameless {σ τ : Type} {states : σ → τ → Prop} (h : C.Nodes m n) (what : String) :
    C.Scans states Eq (left.warnNameless m what) (right.warnNameless n what) :=
  .write (.warning h _ _)

/-! ### Declarations -/

/-- The scans of two classes go alike. -/
theorem scanClass (h : C.Nodes m n) (qualifier : Option String) :
    C.Files (left.scanClass qualifier m) (right.scanClass qualifier n) := by
  unfold FileContext.scanClass
  rcases absent_or_related h.nameToken? with ⟨hm, hn⟩ | ⟨s, t, hm, hn, hst⟩
  · rw [hm, hn]
    exact warnNameless h _
  · rw [hm, hn]
    dsimp only
    rw [hst.text_eq]
    refine Scan.Alike.andThen (record hst _) (walkIn ?_)
    exact .forM h.header fun _ _ hcd => C.walk _ _ hcd

/-- The scans of two fields go alike. -/
theorem scanField (h : C.Nodes m n) (owner : String) :
    C.Files (left.scanField owner m) (right.scanField owner n) := by
  unfold FileContext.scanField FileContext.walkOutside
  refine walkIn ?_
  refine (C.walkPart owner _ h .modifierList).andThen ?_
  refine (C.recordDeclaredType owner _ h).andThen ?_
  -- a field without a name is walked through all the same
  rcases absent_or_related h.initializer? with ⟨hi, hi'⟩ | ⟨i, i', hi, hi', hinitializer⟩
  · rcases absent_or_related h.nameToken? with ⟨hm, hn⟩ | ⟨s, t, hm, hn, hst⟩
    · rw [hi, hi', hm, hn]
      exact Scan.Alike.andThen (warnNameless h _) (.pure rfl)
    · rw [hi, hi', hm, hn]
      dsimp only
      rw [hst.text_eq]
      exact Scan.Alike.andThen (record hst _) (.pure rfl)
  · rcases absent_or_related h.nameToken? with ⟨hm, hn⟩ | ⟨s, t, hm, hn, hst⟩
    · rw [hi, hi', hm, hn]
      exact Scan.Alike.andThen (warnNameless h _) (C.walk owner _ hinitializer)
    · rw [hi, hi', hm, hn]
      dsimp only
      rw [hst.text_eq]
      exact Scan.Alike.andThen (record hst _) (C.walk owner _ hinitializer)

/-- The scans of two enum constants go alike. -/
theorem scanEnumConstant (h : C.Nodes m n) (owner : String) :
    C.Files (left.scanEnumConstant owner m) (right.scanEnumConstant owner n) := by
  unfold FileContext.scanEnumConstant
  rcases absent_or_related h.nameToken? with ⟨hm, hn⟩ | ⟨s, t, hm, hn, hst⟩
  · rw [hm, hn]
    exact warnNameless h _
  · rw [hm, hn]
    dsimp only
    rw [hst.text_eq]
    refine Scan.Alike.andThen (record hst _) (walkIn ?_)
    exact .forM h.childNodes fun _ _ hcd => C.walk _ _ hcd

/-- The parameters of two methods are introduced alike. -/
theorem introduceParameters (owner : String) (method : MethodLabel) {ps qs : List Node}
    (h : List.Forall₂ C.Nodes ps qs) :
    C.Walks (FileContext.introduceParameters (C.leftScope owner method) ps)
      (FileContext.introduceParameters (C.rightScope owner method) qs) := by
  have hindexed (start : Nat) : List.Forall₂ (fun p q => C.Nodes p.1 q.1 ∧ p.2 = q.2)
      (ps.zipIdx start) (qs.zipIdx start) := by
    induction h generalizing start with
    | nil => exact .nil
    | cons hpq _ ih => exact .cons ⟨hpq, rfl⟩ (ih (start + 1))
  refine .forM (hindexed 0) ?_
  rintro ⟨p, index⟩ ⟨q, _⟩ ⟨hpq, rfl⟩
  exact C.introduceParameter owner method hpq index

/-- The walks of two methods go alike. -/
theorem walkMethod (h : C.Nodes m n) (owner : String) (method : MethodLabel) :
    C.Walks (FileContext.walkMethod m (C.leftScope owner method))
      (FileContext.walkMethod n (C.rightScope owner method)) := by
  refine (C.walkPart owner method h .modifierList).andThen ?_
  refine (C.walkPart owner method h .typeParameterList).andThen ?_
  refine (C.recordDeclaredType owner method h).andThen ?_
  refine (introduceParameters owner method h.parameters).andThen ?_
  refine (C.walkPart owner method h .throwsList).andThen ?_
  exact C.walkPart owner method h .codeBlock

/-- The scans of two methods go alike. -/
theorem scanMethod (h : C.Nodes m n) (hkind : m.kind = .method) (owner : String) :
    C.Files (left.scanMethod owner m) (right.scanMethod owner n) := by
  unfold FileContext.scanMethod
  rcases absent_or_related h.nameToken? with ⟨hm, hn⟩ | ⟨s, t, hm, hn, hst⟩
  · rw [hm, hn]
    exact warnNameless h _
  · rw [hm, hn]
    dsimp only
    rw [C.methodType_eq h hkind, hst.text_eq]
    cases right.resolver.methodType? n with
    | none =>
      dsimp only
      rw [C.file_eq]
      exact fail ⟨rfl, .token s, .token t, hst, rfl, rfl⟩ _
    | some type => exact Scan.Alike.andThen (record hst _) (walkIn (walkMethod h owner _))

/-- Two declarations of related nodes. -/
inductive Declarations (C : Comparison left right) : Declaration → Declaration → Prop
  | classDecl {m n : Node} (h : C.Nodes m n) (qualifier : Option String) :
    Declarations C (.classDecl qualifier m) (.classDecl qualifier n)
  | field {m n : Node} (h : C.Nodes m n) (owner : String) :
    Declarations C (.field owner m) (.field owner n)
  | enumConstant {m n : Node} (h : C.Nodes m n) (owner : String) :
    Declarations C (.enumConstant owner m) (.enumConstant owner n)
  | method {m n : Node} (h : C.Nodes m n) (hkind : m.kind = .method) (owner : String) :
    Declarations C (.method owner m) (.method owner n)
  | initializer {m n : Node} (h : C.Nodes m n) (owner : String) :
    Declarations C (.initializer owner m) (.initializer owner n)

/-- Related declarations are extracted alike. -/
theorem scanDeclaration {d e : Declaration} (h : C.Declarations d e) :
    C.Files (left.scanDeclaration d) (right.scanDeclaration e) := by
  cases h with
  | classDecl h qualifier => exact scanClass h qualifier
  | field h owner => exact scanField h owner
  | enumConstant h owner => exact scanEnumConstant h owner
  | method h hkind owner => exact scanMethod h hkind owner
  | initializer h owner =>
    rw [FileContext.scanDeclaration, FileContext.scanDeclaration]
    refine walkIn ?_
    exact C.walk owner .classInitializer h

/-- Related classes have related members, in the same order. -/
theorem classDeclarations {m n : Node} (h : C.Nodes m n) (qualifier : Option String) :
    List.Forall₂ C.Declarations (m.classDeclarations qualifier)
      (n.classDeclarations qualifier) := by
  rw [Node.classDeclarations_eq, Node.classDeclarations_eq]
  refine .cons (.classDecl h qualifier) ?_
  rcases absent_or_related h.nameToken? with ⟨hm, hn⟩ | ⟨s, t, hm, hn, hst⟩
  · rw [hm, hn]
    exact .nil
  · rw [hm, hn]
    dsimp only
    rw [hst.text_eq]
    refine List.rel_flatMap ((List.forall₂_and_left _ _).2
      ⟨fun p (hp : p ∈ m.members) => hp, h.members⟩) ?_
    rintro ⟨kind, c⟩ ⟨_, d⟩ ⟨hmem, rfl, hcd⟩
    have hkind := of_decide_eq_true (List.mem_filter.1 (Node.mem_members_iff_toKind.1 hmem)).2
    have hsmaller := Node.sizeOf_children_lt_of_mem_members hmem
    cases kind with
    | field => exact .cons (.field hcd _) .nil
    | enumConstant => exact .cons (.enumConstant hcd _) .nil
    | method => exact .cons (.method hcd hkind _) .nil
    | initializer => exact .cons (.initializer hcd _) .nil
    | classDecl => exact classDeclarations hcd _
termination_by sizeOf m.children

/-- The declarations of two files correspond one by one. -/
theorem declarations (h : C.Nodes m n) :
    List.Forall₂ C.Declarations m.declarations n.declarations := by
  unfold Node.declarations
  rw [h.packageName_eq]
  exact List.rel_flatMap (h.childrenOfKind .classDecl) fun _ _ hcd => classDeclarations hcd _

/-! ### Files -/

/-- Related trees are malformed in the same way, at related items, or both well-formed. -/
theorem malformation? (h : C.Nodes m n) :
    Option.Rel (fun p q => p.1 = q.1 ∧ ∃ x y, C.related x y ∧ p.2 = x.start ∧ q.2 = y.start)
      m.malformation? n.malformation? := by
  have herror := h.find?_preorder (fun kind => decide (kind = .error)) fun kind hkind => by
    rw [of_decide_eq_true hkind]
    rfl
  unfold Node.malformation?
  rcases absent_or_related herror with ⟨hm, hn⟩ | ⟨x, y, hm, hn, hxy⟩
  · rw [hm, hn]
    dsimp only
    rw [h.kind_eq]
    split
    · exact .none
    · exact .some ⟨rfl, _, _, h, rfl, rfl⟩
  · rw [hm, hn]
    exact .some ⟨rfl, x, y, hxy, rfl, rfl⟩

/-- The records of two packages correspond. -/
theorem packageRecords (h : C.Nodes m n) :
    List.Forall₂ C.Records (left.packageRecords m) (right.packageRecords n) := by
  unfold FileContext.packageRecords
  rw [h.packageName_eq]
  rcases absent_or_related (h.child? .packageStatement) with ⟨hm, hn⟩ | ⟨s, s', hm, hn, hs⟩
  · rw [hm, hn]
    exact .nil
  · rw [hm, hn, Option.bind_some, Option.bind_some]
    rcases absent_or_related (hs.child? .reference) with ⟨hm, hn⟩ | ⟨r, r', hm, hn, hr⟩
    · rw [hm, hn]
      exact .nil
    · rw [hm, hn]
      exact .cons (.record hr _) .nil

/-- The records of the imports of two files correspond one by one. -/
theorem importRecords (h : C.Nodes m n) :
    List.Forall₂ C.Records (left.importRecords m) (right.importRecords n) := by
  refine List.rel_filterMap ?_ (h.childrenOfKind .importStatement)
  intro s s' hs
  unfold FileContext.importRecord?
  rcases absent_or_related (hs.child? .reference) with ⟨hm, hn⟩ | ⟨r, r', hm, hn, hr⟩
  · rw [hm, hn]
    exact .none
  · rw [hm, hn, Option.map_some, Option.map_some, Counterparts.Nodes.spelling_eq hr]
    exact .some (.record hr _)

/-- The heads of two files have the same records if the options ask for the same. -/
theorem headRecords (h : C.Nodes m n)
    (hpackage : left.options.recordsPackage = right.options.recordsPackage)
    (himports : left.options.recordsImports = right.options.recordsImports) :
    List.Forall₂ C.Records (left.headRecords m) (right.headRecords n) := by
  unfold FileContext.headRecords
  rw [hpackage, himports]
  refine List.rel_append ?_ ?_
  · split
    · exact packageRecords h
    · exact .nil
  · split
    · exact importRecords h
    · exact .nil

/-- Journals that correspond have records that correspond. -/
theorem records_of_entries {xs ys : Journal} (h : List.Forall₂ C.Entries xs ys) :
    List.Forall₂ C.Records (Journal.records xs) (Journal.records ys) := by
  refine List.rel_filterMap ?_ h
  intro e f hef
  cases hef with
  | record h identity => exact .some (.record h identity)
  | warning h scope warning => exact .none
  | failure h message => exact .none
  | note event => exact .none

/-- Journals that correspond have diagnostics that correspond. -/
theorem diagnostics_of_entries {xs ys : Journal} (h : List.Forall₂ C.Entries xs ys) :
    List.Forall₂ C.Diagnostics (Journal.diagnostics xs) (Journal.diagnostics ys) := by
  refine List.rel_filterMap ?_ h
  intro e f hef
  cases hef with
  | record h identity => exact .none
  | warning h scope warning => exact .some (.warning h scope warning)
  | failure h message => exact .some (.failure h message)
  | note event => exact .none

/-- Records that are alike name the same symbol, each at its item. -/
theorem Records.exists_item {r r' : Record} (h : C.Records r r') :
    ∃ x y identity, C.related x y ∧ r = left.recordAt x.span identity ∧
      r' = right.recordAt y.span identity := by
  cases h with
  | record h identity => exact ⟨_, _, identity, h, rfl, rfl⟩

/-- Records that correspond have the same identity. -/
theorem Records.identity_eq {r r' : Record} (h : C.Records r r') : r.identity = r'.identity := by
  obtain ⟨x, y, identity, -, rfl, rfl⟩ := h.exists_item
  rfl

/-- Failures that are alike differ in nothing but their offsets. -/
theorem Failures.withOffset_eq {failure failure' : FileFailure} (h : C.Failures failure failure')
    (offset : Nat) : failure.withOffset offset = failure'.withOffset offset := by
  rw [← h.eq]
  cases failure <;> rfl

/-- Diagnostics that are alike differ in nothing but their offsets, which are those of their
items. -/
theorem Diagnostics.exists_item {d d' : Diagnostic} (h : C.Diagnostics d d') :
    d.severity = d'.severity ∧ d.code = d'.code ∧ d.file = d'.file ∧ d.message = d'.message ∧
      ∃ x y, C.related x y ∧ d.offset = some (left.offsets.offset x.start) ∧
        d'.offset = some (right.offsets.offset y.start) := by
  cases h with
  | warning h scope warning => exact ⟨rfl, rfl, C.file_eq, rfl, _, _, h, rfl, rfl⟩
  | @failure failure failure' h message =>
    obtain ⟨x, y, hxy, hx, hy⟩ := h.place
    have hcode : failure.code = failure'.code := by
      rw [← h.eq]
      cases failure <;> rfl
    have hfile : failure.file = failure'.file := by
      rw [← h.eq]
      cases failure <;> rfl
    exact ⟨rfl, hcode, hfile, rfl, x, y, hxy, congrArg some hx, congrArg some hy⟩

/-- Two extracted files: they fail for the same reason or both succeed, with the same reports at
related items, and then have the same records at related items but for those at their heads. -/
structure Extractions (C : Comparison left right) (m n : Node) (e f : ExtractedFile) : Prop where
  result : ResultsAlike C.Stops Eq e.result f.result
  diagnostics : List.Forall₂ C.Diagnostics e.diagnostics f.diagnostics
  records : e.result = .ok () → ∃ rest rest', e.records = left.headRecords m ++ rest ∧
    f.records = right.headRecords n ++ rest' ∧ List.Forall₂ C.Records rest rest'

/-- Extractions that are alike stop for reasons that differ in nothing but their offsets. -/
theorem Extractions.result_eq {e f : ExtractedFile} (h : C.Extractions m n e f) (offset : Nat) :
    e.result.mapError (Stop.withOffset offset) = f.result.mapError (Stop.withOffset offset) := by
  refine h.result.mapError_eq ?_
  intro s t hst
  cases hst with
  | failed hfailures => exact congrArg Stop.failed (hfailures.withOffset_eq offset)
  | indexOverflow => rfl

/-- Files with related roots are extracted alike. -/
theorem scanRoot (h : C.Nodes m n) (file : String) :
    C.Extractions m n (.ofOutcome file ((left.scanRoot m).run ()))
      (.ofOutcome file ((right.scanRoot n).run ())) := by
  rcases absent_or_related (malformation? h) with
    ⟨hm, hn⟩ | ⟨⟨malformation, p⟩, ⟨malformation', q⟩, hm, hn, hsame, x, y, hxy, hp, hq⟩
  · obtain ⟨hjournal, -, hresult⟩ :=
      Scan.Alike.forM (declarations h) (fun _ _ hde => scanDeclaration hde) () () rfl
    rw [left.run_scanRoot_of_wellFormed hm, right.run_scanRoot_of_wellFormed hn]
    refine ⟨?_, ?_, ?_⟩
    · rw [ExtractedFile.result_ofOutcome, ExtractedFile.result_ofOutcome]
      exact hresult
    · rw [ExtractedFile.diagnostics_ofOutcome, ExtractedFile.diagnostics_ofOutcome,
        Journal.diagnostics_append, Journal.diagnostics_append, Journal.diagnostics_map_record,
        Journal.diagnostics_map_record]
      exact diagnostics_of_entries hjournal
    · intro hok
      rw [ExtractedFile.result_ofOutcome] at hok
      refine ⟨_, _, ?_, ?_, records_of_entries hjournal⟩
      · refine (ExtractedFile.records_ofOutcome_of_ok hok).trans ?_
        rw [Journal.records_append, Journal.records_map_record]
      · refine (ExtractedFile.records_ofOutcome_of_ok ?_).trans ?_
        · exact hresult.eq_ok_iff.1 hok
        · rw [Journal.records_append, Journal.records_map_record]
  · obtain rfl : malformation = malformation' := hsame
    -- both trees are malformed at items that correspond
    obtain rfl : p = x.start := hp
    obtain rfl : q = y.start := hq
    rw [left.run_scanRoot_of_malformed hm, right.run_scanRoot_of_malformed hn, C.file_eq]
    have hfailures : C.Failures (.malformedTree right.file (left.offsets.offset x.start))
        (.malformedTree right.file (right.offsets.offset y.start)) :=
      ⟨rfl, x, y, hxy, rfl, rfl⟩
    refine ⟨.error (.failed hfailures), .cons (.failure hfailures _) .nil, ?_⟩
    intro hok
    cases hok

end Comparison

end SymbolRanges

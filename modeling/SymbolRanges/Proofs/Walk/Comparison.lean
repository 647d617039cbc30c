import SymbolRanges.Proofs.Scan.Comparison
import SymbolRanges.Proofs.Tree.Counterparts
import SymbolRanges.Proofs.Walk.Acts

/-!
# Two walks side by side

Two files are compared whose trees differ in layout at most, and whose offsets may be counted in
different units. `Comparison` says what the two have to share: related items of the same shape,
answers of the resolvers that differ only in where declarations stand, and the options that decide
about regions and indices. Then walks through related nodes are alike, step by step
(`Comparison.walk`): they make the same records and the same reports at related items, and they
give related declarations the same indices.
-/

set_option autoImplicit false

namespace SymbolRanges

/-! ### What is compared -/

/-- The span of the declaration that a target names, if it is a variable. -/
def Target.declaration? : Target → Option Span
  | .localVariable declaration _ => some declaration
  | .parameter declaration _ _ => some declaration
  | _ => none

/-- Two targets that are equal but for the spans of the declarations that they name, which are
related. -/
inductive Target.Alike (spans : Span → Span → Prop) : Target → Target → Prop
  | same {target : Target} (h : target.declaration? = none) : Alike spans target target
  | localVariable {d e : Span} (h : spans d e) (name : String) :
    Alike spans (.localVariable d name) (.localVariable e name)
  | parameter {d e : Span} (h : spans d e) (name : String) (site : ParameterSite) :
    Alike spans (.parameter d name site) (.parameter e name site)

/-- A failure with another offset. -/
def FileFailure.withOffset (offset : Nat) : FileFailure → FileFailure
  | .unresolvedReference file className method name _ =>
    .unresolvedReference file className method name offset
  | .unresolvedMethodType file className method _ =>
    .unresolvedMethodType file className method offset
  | .malformedTree file _ => .malformedTree file offset

namespace Scope

variable (scope : Scope)

/-- Nothing is done at layout. -/
theorem visit_of_isLayout {options : Options} (hmarker : options.marker? = scope.options.marker?)
    {item : Item} (h : options.isLayout item = true) : scope.visit item = pure () := by
  cases item with
  | node n => cases h
  | token t =>
    rw [visit, switchRegion]
    rw [Options.isLayout] at h
    split
    · next hkind =>
      rw [hkind] at h
      have hnone : options.marker? t.text = none := Option.isNone_iff_eq_none.1 h
      rw [← hmarker, hnone]
    · rfl

/-- A walk may leave out layout. -/
theorem forM_visit_solid {scope : Scope} (options : Options)
    (hmarker : options.marker? = scope.options.marker?) (n : Node) :
    ((Item.node n).solid options).forM scope.visit = scope.walk n := by
  unfold Item.solid Options.solid
  refine Scan.forM_filter ?_ n.preorder
  intro item hitem
  exact scope.visit_of_isLayout hmarker ((Bool.not_eq_false' _).mp hitem)

end Scope

/-- Two files that are extracted alike: which items and which spans of declarations are related, and
that the resolvers and the options treat what is related alike. -/
structure Comparison (left right : FileContext) extends Counterparts left.options where
  spans : Span → Span → Prop
  file_eq : left.file = right.file
  base_eq : left.options.injectedBase = right.options.injectedBase
  marker?_eq : left.options.marker? = right.options.marker?
  target : ∀ {m n}, toCounterparts.Nodes m n → m.kind = .reference →
    Option.Rel (Target.Alike spans) (left.resolver.target? m) (right.resolver.target? n)
  methodType_eq : ∀ {m n}, toCounterparts.Nodes m n → m.kind = .method →
    left.resolver.methodType? m = right.resolver.methodType? n
  /-- Related spans are those of related identifiers together. -/
  eq_span_iff : ∀ {d e}, spans d e → ∀ {s t}, toCounterparts.Tokens s t → s.kind = .ident →
    (d = s.span ↔ e = t.span)

namespace Comparison

variable {left right : FileContext} (C : Comparison left right)

/-- Two failures that are equal but for their offsets, which are those of related items. -/
structure Failures (failure failure' : FileFailure) : Prop where
  eq : failure.withOffset failure'.offset = failure'
  place : ∃ x y, C.related x y ∧ failure.offset = left.offsets.offset x.start ∧
    failure'.offset = right.offsets.offset y.start

/-- Two entries that say the same of related items. -/
inductive Entries : Entry → Entry → Prop
  | record {x y : Item} (h : C.related x y) (identity : Identity) :
    Entries (.record (left.recordAt x.span identity)) (.record (right.recordAt y.span identity))
  | warning {x y : Item} (h : C.related x y) (scope : String) (warning : Warning) :
    Entries (.diagnostic (left.warningAt x.start scope warning))
      (.diagnostic (right.warningAt y.start scope warning))
  | failure {failure failure' : FileFailure} (h : C.Failures failure failure') (message : String) :
    Entries (.diagnostic (failure.diagnostic message)) (.diagnostic (failure'.diagnostic message))
  | note (event : Log.Event) : Entries (.note event) (.note event)

/-- Two records of the same symbol at related items. -/
def Records (r r' : Record) : Prop := C.Entries (.record r) (.record r')

/-- Two diagnostics that report the same of related items. -/
def Diagnostics (d d' : Diagnostic) : Prop := C.Entries (.diagnostic d) (.diagnostic d')

/-- Two reasons to stop that are the same. -/
inductive Stops : Stop → Stop → Prop
  | failed {failure failure' : FileFailure} (h : C.Failures failure failure') :
    Stops (.failed failure) (.failed failure')
  | indexOverflow : Stops .indexOverflow .indexOverflow

/-- Two walks that have come equally far: related declarations have the same index or none. -/
structure States (s t : WalkState) : Prop where
  region : s.region = t.region
  next : ∀ region, s.locals.next region = t.locals.next region
  collided : s.collided = t.collided
  locals : ∀ {d e}, C.spans d e → s.locals.find? d = t.locals.find? e
  parameters : ∀ {d e}, C.spans d e → s.parameters.find? d = t.parameters.find? e

/-- Two scans that write related entries and stop for the same reason or not at all. -/
abbrev Scans {σ τ α β : Type} (states : σ → τ → Prop) (values : α → β → Prop) (x : Scan σ α)
    (y : Scan τ β) : Prop :=
  Scan.Alike C.Entries C.Stops states values x y

/-- Two walks that lead from states that are equally far to such states. -/
abbrev Walks (x y : Walk Unit) : Prop := C.Scans C.States Eq x y

/-- The scope of a stretch of code in the one file. -/
abbrev leftScope (_ : Comparison left right) (owner : String) (method : MethodLabel) : Scope :=
  ⟨left, owner, method⟩

/-- The scope of a stretch of code in the other file. -/
abbrev rightScope (_ : Comparison left right) (owner : String) (method : MethodLabel) : Scope :=
  ⟨right, owner, method⟩

/-! ### Entries -/

variable {C}
variable {σ τ α β : Type} {states : σ → τ → Prop} {values : α → β → Prop}

/-- Recording one symbol at items that correspond is alike. -/
theorem record {x y : Item} (h : C.related x y) (identity : Identity) :
    C.Scans states Eq (left.record x.span identity) (right.record y.span identity) :=
  .write (.record h identity)

/-- Failing in ways that correspond, with one message, is alike. -/
theorem fail {failure failure' : FileFailure} (h : C.Failures failure failure')
    (message : String) :
    C.Scans states values (Scan.fail failure message) (Scan.fail failure' message) :=
  .fail (.failure h message) (.failed h)

variable (C) (owner : String) (method : MethodLabel) {m n : Node} {s t : Token}

/-- Warning of one thing at items that correspond is alike. -/
theorem warn {x y : Item} (h : C.related x y) (warning : Warning) :
    C.Walks ((C.leftScope owner method).warn x.start warning)
      ((C.rightScope owner method).warn y.start warning) :=
  .write (.warning h _ warning)

/-- Failing at references that correspond is alike. -/
theorem failUnresolved (h : C.Nodes m n) :
    C.Walks ((C.leftScope owner method).failUnresolved m)
      ((C.rightScope owner method).failUnresolved n) := by
  have hfailures : C.Failures ((C.leftScope owner method).unresolvedError m)
      ((C.rightScope owner method).unresolvedError n) := by
    unfold Scope.unresolvedError
    rcases absent_or_related h.referenceName? with ⟨hm, hn⟩ | ⟨s, t, hm, hn, hst⟩
    · rw [hm, hn, h.spelling_eq, C.file_eq]
      exact ⟨rfl, .node m, .node n, h, rfl, rfl⟩
    · rw [hm, hn, h.spelling_eq, C.file_eq]
      exact ⟨rfl, .token s, .token t, hst, rfl, rfl⟩
  unfold Scope.failUnresolved
  rw [h.spelling_eq]
  exact fail hfailures _

/-! ### Types -/

variable {C}

/-- Of two references that correspond, both point at classes or neither does. -/
theorem isClass_eq (h : C.Nodes m n) (hkind : m.kind = .reference) :
    left.resolver.isClass m = right.resolver.isClass n := by
  unfold Resolver.isClass
  rcases absent_or_related (C.target h hkind) with ⟨hm, hn⟩ | ⟨a, b, hm, hn, hab⟩
  · rw [hm, hn]
  · rw [hm, hn]
    cases hab <;> rfl

/-- Related types are made of related references, in the same order. -/
theorem typeReferences {m n : Node} (h : C.Nodes m n) :
    List.Forall₂ (fun r r' => r.kind = .reference ∧ C.Nodes r r')
      (m.typeReferences left.resolver.isClass) (n.typeReferences right.resolver.isClass) := by
  rw [Node.typeReferences_eq, Node.typeReferences_eq]
  refine List.rel_append ?_ ?_
  · rcases absent_or_related (h.child? .reference) with ⟨hm, hn⟩ | ⟨r, r', hm, hn, hr⟩
    · rw [hm, hn]
      exact .nil
    · rw [hm, hn, Option.toList_some, Option.toList_some, List.flatMap_singleton,
        List.flatMap_singleton]
      have hkind := Node.kind_of_child? hm
      refine .cons ⟨hkind, hr⟩ ?_
      rw [isClass_eq hr hkind]
      split
      · refine List.rel_flatMap ((List.forall₂_and_left _ _).2
          ⟨fun a (ha : a ∈ r.typeArguments) => ha, hr.typeArguments⟩) ?_
        rintro a b ⟨ha, hab⟩
        have hsmaller := Nat.lt_trans (Node.sizeOf_children_lt_of_mem_typeArguments ha)
          (Node.sizeOf_children_lt (Node.mem_childNodes_of_child? hm))
        exact typeReferences hab
      · exact .nil
  · refine List.rel_flatMap ((List.forall₂_and_left _ _).2
      ⟨fun a (ha : a ∈ m.innerTypes) => ha, h.childrenOfKind .type⟩) ?_
    rintro a b ⟨ha, hab⟩
    have hsmaller := Node.sizeOf_children_lt (Node.mem_childNodes_of_mem_childrenOfKind ha)
    exact typeReferences hab
termination_by sizeOf m.children

variable (C)

/-- Recording references of declared types that correspond is alike. -/
theorem recordTypeReference (h : C.Nodes m n) (hkind : m.kind = .reference) :
    C.Walks ((C.leftScope owner method).recordTypeReference m)
      ((C.rightScope owner method).recordTypeReference n) := by
  unfold Scope.recordTypeReference
  rcases absent_or_related (C.target h hkind) with ⟨hm, hn⟩ | ⟨a, b, hm, hn, hab⟩
  · rw [hm, hn]
    exact C.failUnresolved owner method h
  · rw [hm, hn]
    cases hab with
    | localVariable _ name => exact .write (.note _)
    | parameter _ name site => exact .write (.note _)
    | same hnone =>
      split
      · cases ‹_ = none›
      · rcases absent_or_related h.referenceName? with ⟨hm, hn⟩ | ⟨s, t, hm, hn, hst⟩
        · rw [hm, hn]
          exact .pure rfl
        · rw [hm, hn]
          exact record hst _
      · exact .write (.note _)

/-- Recording types that correspond is alike. -/
theorem recordType (h : C.Nodes m n) :
    C.Walks ((C.leftScope owner method).recordType m)
      ((C.rightScope owner method).recordType n) :=
  .forM (typeReferences h) fun _ _ hr => C.recordTypeReference owner method hr.2 hr.1

/-- Recording the types of declarations that correspond is alike. -/
theorem recordDeclaredType (h : C.Nodes m n) :
    C.Walks ((C.leftScope owner method).recordDeclaredType m)
      ((C.rightScope owner method).recordDeclaredType n) := by
  unfold Scope.recordDeclaredType
  rcases absent_or_related (h.child? .type) with ⟨hm, hn⟩ | ⟨a, b, hm, hn, hab⟩
  · rw [hm, hn]
    exact .pure rfl
  · rw [hm, hn]
    exact C.recordType owner method hab

/-! ### Declarations -/

variable {C}

/-- States that correspond collide at the same indices. -/
theorem States.collides_eq {a b : WalkState} (h : C.States a b) (index : Nat) :
    (C.leftScope owner method).collides a index =
      (C.rightScope owner method).collides b index := by
  unfold Scope.collides
  rw [h.region, h.collided, C.base_eq]

/-- A related declaration enters its index under a related span. -/
theorem find?_insert_eq {a b : Table Span Nat} (hst : C.Tokens s t) (hkind : s.kind = .ident)
    (h : ∀ {d e}, C.spans d e → a.find? d = b.find? e) (index : Nat) {d e : Span}
    (hde : C.spans d e) :
    (a.insert s.span index).find? d = (b.insert t.span index).find? e := by
  rw [Table.find?_insert, Table.find?_insert, h hde]
  exact if_congr (C.eq_span_iff hde hst hkind) rfl rfl

/-- States correspond after an index was handed out to names that correspond. -/
theorem States.put {a b : WalkState} (h : C.States a b) (hst : C.Tokens s t)
    (hkind : s.kind = .ident) {collided collided' : Bool} (hcollided : collided = collided') :
    C.States { a with locals := a.locals.put s.span a.region, collided }
      { b with locals := b.locals.put t.span b.region, collided := collided' } where
  region := h.region
  next region := by rw [IndexTable.next_put, IndexTable.next_put, h.next, h.region]
  collided := hcollided
  locals hde := by
    unfold IndexTable.find? IndexTable.put
    rw [h.next, h.region]
    exact find?_insert_eq hst hkind h.locals _ hde
  parameters := h.parameters

/-- States correspond after a parameter was entered under names that correspond. -/
theorem States.insert {a b : WalkState} (h : C.States a b) (hst : C.Tokens s t)
    (hkind : s.kind = .ident) (index : Nat) :
    C.States { a with parameters := a.parameters.insert s.span index }
      { b with parameters := b.parameters.insert t.span index } where
  region := h.region
  next := h.next
  collided := h.collided
  locals := h.locals
  parameters := find?_insert_eq hst hkind h.parameters index

variable (C)

/-- Declaring the names of variables that correspond is alike. -/
theorem nameVariable (h : C.Nodes m n) :
    C.Walks ((C.leftScope owner method).nameVariable m)
      ((C.rightScope owner method).nameVariable n) := by
  intro a b hab
  rcases absent_or_related h.nameToken? with ⟨hm, hn⟩ | ⟨s, t, hm, hn, hst⟩
  · rw [Scope.run_nameVariable_of_none _ hm, Scope.run_nameVariable_of_none _ hn]
    exact ⟨.cons (.warning h _ _) .nil, hab, .ok rfl⟩
  · have hkind := (Node.mem_childTokens_of_nameToken? hm).2
    have hnext : a.locals.next a.region = b.locals.next b.region := by rw [hab.next, hab.region]
    rw [Scope.run_nameVariable _ hm, Scope.run_nameVariable _ hn, hnext,
      hab.collides_eq owner method]
    split
    · refine ⟨List.rel_append ?_ (.cons ?_ .nil), hab.put hst hkind ?_, .ok rfl⟩
      · rw [hst.text_eq, C.base_eq]
        split
        · exact .cons (.warning hst _ _) .nil
        · exact .nil
      · unfold Scope.variableRecord
        rw [hst.text_eq]
        exact .record hst _
      · rw [hab.collided]
    · exact ⟨.nil, hab, .error .indexOverflow⟩

/-- Declaring variables that correspond is alike. -/
theorem introduceVariable (h : C.Nodes m n) :
    C.Walks ((C.leftScope owner method).introduceVariable m)
      ((C.rightScope owner method).introduceVariable n) :=
  (C.recordDeclaredType owner method h).andThen (C.nameVariable owner method h)

/-- Declaring elements of declaration statements that correspond is alike. -/
theorem introduceElement (h : C.Nodes m n) :
    C.Walks ((C.leftScope owner method).introduceElement m)
      ((C.rightScope owner method).introduceElement n) := by
  unfold Scope.introduceElement
  rw [← h.kind_eq]
  split
  · exact C.introduceVariable owner method h
  · exact C.warn owner method h _
  · exact C.warn owner method h _

/-! ### References -/

/-- Recording references to local variables that correspond is alike. -/
theorem recordLocalReference (hst : C.Tokens s t) {d e : Span} (hde : C.spans d e)
    (name : String) :
    C.Walks ((C.leftScope owner method).recordLocalReference s d name)
      ((C.rightScope owner method).recordLocalReference t e name) := by
  intro a b hab
  rw [Scope.run_recordLocalReference, Scope.run_recordLocalReference, hab.locals hde]
  cases b.locals.find? e with
  | none => exact ⟨.cons (.warning hst _ _) (.cons (.record hst _) .nil), hab, .ok rfl⟩
  | some index => exact ⟨.cons (.record hst _) .nil, hab, .ok rfl⟩

/-- Recording references to parameters that correspond is alike. -/
theorem recordParameterReference (hst : C.Tokens s t) {d e : Span} (hde : C.spans d e)
    (name : String) :
    C.Walks ((C.leftScope owner method).recordParameterReference s d name)
      ((C.rightScope owner method).recordParameterReference t e name) := by
  intro a b hab
  rw [Scope.run_recordParameterReference, Scope.run_recordParameterReference, hab.parameters hde]
  cases b.parameters.find? e with
  | none => exact ⟨.cons (.warning hst _ _) (.cons (.record hst _) .nil), hab, .ok rfl⟩
  | some index => exact ⟨.cons (.record hst _) .nil, hab, .ok rfl⟩

/-- Recording what references that correspond point at is alike. -/
theorem recordTarget (hst : C.Tokens s t) {a b : Target} (h : a.Alike C.spans b) :
    C.Walks ((C.leftScope owner method).recordTarget s a)
      ((C.rightScope owner method).recordTarget t b) := by
  cases h with
  | localVariable hde name => exact C.recordLocalReference owner method hst hde name
  | parameter hde name site =>
    cases site with
    | method => exact C.recordParameterReference owner method hst hde name
    | forEach => exact C.recordLocalReference owner method hst hde name
    | catchSection => exact C.recordLocalReference owner method hst hde name
    | lambda => exact C.warn owner method hst _
  | same hnone =>
    cases a with
    | package name => exact .pure rfl
    | classDecl qualifiedName => exact record hst _
    | field owner name => exact record hst _
    | method owner name type => exact record hst _
    | localVariable declaration name => cases hnone
    | parameter declaration name site => cases hnone
    | other description =>
      unfold Scope.recordTarget
      rw [hst.text_eq]
      exact C.warn owner method hst _

/-- Recording references that correspond is alike. -/
theorem recordReference (h : C.Nodes m n) (hkind : m.kind = .reference) :
    C.Walks ((C.leftScope owner method).recordReference m)
      ((C.rightScope owner method).recordReference n) := by
  unfold Scope.recordReference
  rcases absent_or_related h.referenceName? with ⟨hm, hn⟩ | ⟨s, t, hm, hn, hst⟩
  · rw [hm, hn]
    exact .write (.note _)
  · rw [hm, hn]
    dsimp only
    rcases absent_or_related (C.target h hkind) with ⟨hm, hn⟩ | ⟨a, b, hm, hn, hab⟩
    · rw [hm, hn]
      exact C.failUnresolved owner method h
    · rw [hm, hn]
      exact C.recordTarget owner method hst hab

/-! ### Walks -/

/-- Passing tokens that correspond is alike, for both are the same marker or none is one. -/
theorem switchRegion (hst : C.Tokens s t) :
    C.Walks ((C.leftScope owner method).switchRegion s)
      ((C.rightScope owner method).switchRegion t) := by
  have hmarker : (C.leftScope owner method).options.marker? s.text =
      (C.rightScope owner method).options.marker? t.text := by
    rw [hst.text_eq, C.marker?_eq]
  unfold Scope.switchRegion
  rw [hst.kind_eq, hmarker]
  split
  · cases (C.rightScope owner method).options.marker? t.text with
    | none => exact .pure rfl
    | some region =>
      have hmodify : C.Walks (.modify fun a => { a with region })
          (.modify fun b => { b with region }) :=
        .modify fun _ _ hab => { hab with region := rfl }
      refine Scan.Alike.bind Scan.Alike.get ?_
      intro a b hab
      dsimp only
      rw [hab.region]
      split
      · exact Scan.Alike.andThen (.write (.note _)) hmodify
      · exact hmodify
  · exact .pure rfl

/-- Visiting nodes that correspond is alike. -/
theorem visitNode (h : C.Nodes m n) :
    C.Walks ((C.leftScope owner method).visitNode m) ((C.rightScope owner method).visitNode n) := by
  unfold Scope.visitNode
  rw [← h.kind_eq]
  cases hkind : m.kind with
  | declarationStatement =>
    exact .forM h.declared fun _ _ hcd => C.introduceElement owner method hcd
  | catchSection | foreachStatement =>
    dsimp only
    rcases absent_or_related (h.child? .parameter) with ⟨hm, hn⟩ | ⟨p, q, hm, hn, hpq⟩
    · rw [hm, hn]
      exact .pure rfl
    · rw [hm, hn]
      exact C.introduceVariable owner method hpq
  | reference => exact C.recordReference owner method h hkind
  | _ => exact .pure rfl

/-- Visiting items that correspond is alike. -/
theorem visit {x y : Item} (h : C.related x y) :
    C.Walks ((C.leftScope owner method).visit x) ((C.rightScope owner method).visit y) := by
  rcases Item.both_of_shape_eq (C.shape_eq h) with ⟨m, n, rfl, rfl⟩ | ⟨s, t, rfl, rfl⟩
  · exact C.visitNode owner method h
  · exact C.switchRegion owner method h

/-- Walking through nodes that correspond is alike, with layout left out of both. -/
theorem walk (h : C.Nodes m n) :
    C.Walks ((C.leftScope owner method).walk m) ((C.rightScope owner method).walk n) := by
  rw [← Scope.forM_visit_solid left.options rfl, ← Scope.forM_visit_solid left.options C.marker?_eq]
  exact .forM (C.solid h) fun _ _ hxy => C.visit owner method hxy

/-- Walking through parts of constructs that correspond is alike. -/
theorem walkPart (h : C.Nodes m n) (kind : Kind) :
    C.Walks ((C.leftScope owner method).walkPart m kind)
      ((C.rightScope owner method).walkPart n kind) := by
  unfold Scope.walkPart
  rcases absent_or_related (h.child? kind) with ⟨hm, hn⟩ | ⟨p, q, hm, hn, hpq⟩
  · rw [hm, hn]
    exact .pure rfl
  · rw [hm, hn]
    exact C.walk owner method hpq

/-- Declaring parameters of the method that correspond is alike. -/
theorem introduceParameter (h : C.Nodes m n) (index : Nat) :
    C.Walks ((C.leftScope owner method).introduceParameter index m)
      ((C.rightScope owner method).introduceParameter index n) := by
  refine (C.walkPart owner method h .modifierList).andThen ?_
  refine (C.recordDeclaredType owner method h).andThen ?_
  rcases absent_or_related h.nameToken? with ⟨hm, hn⟩ | ⟨s, t, hm, hn, hst⟩
  · rw [hm, hn]
    exact C.warn owner method h _
  · have hkind := (Node.mem_childTokens_of_nameToken? hm).2
    rw [hm, hn]
    dsimp only
    rw [hst.text_eq]
    exact Scan.Alike.andThen (.modify fun _ _ hab => hab.insert hst hkind index) (record hst _)

end Comparison

end SymbolRanges

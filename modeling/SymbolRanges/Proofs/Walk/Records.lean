import SymbolRanges.Proofs.Scan.Records
import SymbolRanges.Proofs.Tree.Text
import SymbolRanges.Proofs.Walk.References
import SymbolRanges.Proofs.Walk.Resolution

/-!
# What a walk records

A token of a stretch of code names a symbol in one of two ways: it is the name of a reference, and
then the resolver knows the symbol, or it declares a local variable, and then its text is the name
of the variable. `Resolver.NamesIn` is this relation, read off the tree alone.

`Scope.walk_recordsOnly` says that a walk records nothing else. In the other direction, a walk that
succeeds has recorded every class that a reference points at and every variable that the code
declares.
-/

set_option autoImplicit false

namespace SymbolRanges

/-- The identities that a reference to a target is recorded under: those of the target, with any
class, method and index for a variable. Packages, parameters of lambda expressions and targets of
other kinds have none. -/
def Target.RecordedAs : Target → Identity → Prop
  | .classDecl qualifiedName, .classDecl name => name = qualifiedName
  | .field owner name, .field owner' name' => owner' = owner ∧ name' = name
  | .method owner name type, .method owner' name' signature =>
    owner' = owner ∧ name' = name ∧ signature = type.descriptor
  | .localVariable _ name, .localVariable v => v.name = name
  | .parameter _ name .method, .parameter v => v.name = name
  | .parameter _ name .forEach, .localVariable v => v.name = name
  | .parameter _ name .catchSection, .localVariable v => v.name = name
  | _, _ => False

/-- How a token names a symbol in a stretch of code. -/
inductive Resolver.NamesIn (resolver : Resolver) (n : Node) : Token → Identity → Prop
  /-- It is the name of a reference. -/
  | reference {r : Node} {name : Token} {target : Target} {identity : Identity}
    (hr : r ∈ n.descendants) (hkind : r.kind = .reference) (hname : r.referenceName? = some name)
    (htarget : resolver.target? r = some target) (hidentity : target.RecordedAs identity) :
    NamesIn resolver n name identity
  /-- It declares a local variable. -/
  | declaration {d : Node} {name : Token} {v : Variable} (hd : d ∈ n.descendants)
    (hname : name ∈ d.variableNames) (htext : v.name = name.text)
    (hindex : v.index.isSome = true) : NamesIn resolver n name (.localVariable v)

/-- What names a symbol in a part of the code names it in the whole. -/
theorem Resolver.NamesIn.mono {resolver : Resolver} {n m : Node} {t : Token} {identity : Identity}
    (hm : m ∈ n.descendants) (h : resolver.NamesIn m t identity) :
    resolver.NamesIn n t identity := by
  cases h with
  | reference hr hkind hname htarget hidentity =>
    exact .reference (Node.mem_descendants_trans hm hr) hkind hname htarget hidentity
  | declaration hd hname htext hindex =>
    exact .declaration (Node.mem_descendants_trans hm hd) hname htext hindex

/-- A record of a symbol at the place of a token that names it in a stretch of code. -/
def FileContext.RecordedIn (context : FileContext) (n : Node) (r : Record) : Prop :=
  ∃ t identity, context.resolver.NamesIn n t identity ∧ r = context.recordAt t.span identity

/-- A record of a symbol in a part of the code is one of a symbol in the whole. -/
theorem FileContext.RecordedIn.mono {context : FileContext} {n m : Node} (hm : m ∈ n.descendants)
    (r : Record) (h : context.RecordedIn m r) : context.RecordedIn n r := by
  obtain ⟨t, identity, hnames, hr⟩ := h
  exact ⟨t, identity, hnames.mono hm, hr⟩

/-- The references that a type is made of stand below it. -/
theorem Node.TypeReaches.mem_descendants {isClass : Node → Bool} {type found : Node}
    (h : type.TypeReaches isClass found) :
    found ∈ type.descendants ∧ found.kind = .reference := by
  induction h with
  | name h =>
    exact ⟨mem_descendants_of_mem_childNodes (mem_childNodes_of_child? h), kind_of_child? h⟩
  | argument h _ ha _ ih =>
    have hbelow := mem_descendants_trans (mem_descendants_of_mem_typeArguments ha) ih.1
    exact ⟨mem_descendants_of_below_child (mem_childNodes_of_child? h) hbelow, ih.2⟩
  | nested hi _ ih =>
    exact ⟨mem_descendants_of_below_child (mem_childNodes_of_mem_childrenOfKind hi) ih.1, ih.2⟩

namespace Scope

variable (scope : Scope)

/-- The record of a class at a token. -/
def classRecord (name : Token) (qualifiedName : String) : Record :=
  scope.recordAt name.span (.classDecl qualifiedName)

/-- A record of the class that a reference points at, at the name of the reference. -/
def RecordsClass (reference : Node) (r : Record) : Prop :=
  ∃ name qualifiedName, reference.referenceName? = some name ∧
    scope.resolver.target? reference = some (.classDecl qualifiedName) ∧
    r = scope.classRecord name qualifiedName

/-! ### Nothing else is recorded -/

/-- A warning is no record. -/
theorem warn_recordsOnly {P : Record → Prop} (position : Nat) (warning : Warning) :
    (scope.warn position warning).RecordsOnly P :=
  .diagnostic _

/-- A reference that does not resolve is not recorded. -/
theorem failUnresolved_recordsOnly {P : Record → Prop} (reference : Node) :
    (scope.failUnresolved reference).RecordsOnly P :=
  .fail _ _

/-- Handing out an index records nothing; only the variable does. -/
theorem assignIndex_recordsOnly {P : Record → Prop} (name : Token) :
    (scope.assignIndex name).RecordsOnly P := by
  unfold assignIndex
  refine Scan.RecordsOnly.get.bind fun state => ?_
  split
  · exact .stop _
  · refine (Scan.RecordsOnly.modify _).bind fun _ => ?_
    dsimp only
    split
    · exact (scope.warn_recordsOnly _ _).bind fun _ => .pure _
    · exact .pure _

/-- A reference to a local variable is recorded with whatever index the table has. -/
theorem recordLocalReference_recordsOnly {P : Record → Prop} {reference : Token}
    {declaration : Span} {name : String}
    (h : ∀ index, P (scope.recordAt reference.span
      (.localVariable (scope.localName name index)))) :
    (scope.recordLocalReference reference declaration name).RecordsOnly P := by
  unfold recordLocalReference
  refine Scan.RecordsOnly.get.bind fun state => ?_
  dsimp only
  split
  · exact (scope.warn_recordsOnly _ _).bind fun _ => .record (h _)
  · exact .record (h _)

/-- A reference to a parameter is recorded with whatever index the table has. -/
theorem recordParameterReference_recordsOnly {P : Record → Prop} {reference : Token}
    {declaration : Span} {name : String}
    (h : ∀ index, P (scope.recordAt reference.span (.parameter (scope.localName name index)))) :
    (scope.recordParameterReference reference declaration name).RecordsOnly P := by
  unfold recordParameterReference
  refine Scan.RecordsOnly.get.bind fun state => ?_
  dsimp only
  split
  · exact (scope.warn_recordsOnly _ _).bind fun _ => .record (h _)
  · exact .record (h _)

/-- A reference is recorded at its name, under an identity of its target. -/
theorem recordTarget_recordsOnly {P : Record → Prop} {reference : Token} {target : Target}
    (h : ∀ identity, target.RecordedAs identity → P (scope.recordAt reference.span identity)) :
    (scope.recordTarget reference target).RecordsOnly P := by
  unfold recordTarget
  split
  · exact .pure _
  · exact .record (h _ rfl)
  · exact .record (h _ ⟨rfl, rfl⟩)
  · exact .record (h _ ⟨rfl, rfl, rfl⟩)
  · exact scope.recordLocalReference_recordsOnly fun _ => h _ rfl
  · exact scope.recordParameterReference_recordsOnly fun _ => h _ rfl
  · exact scope.recordLocalReference_recordsOnly fun _ => h _ rfl
  · exact scope.recordLocalReference_recordsOnly fun _ => h _ rfl
  · exact scope.warn_recordsOnly _ _
  · exact scope.warn_recordsOnly _ _

/-- The visit of a reference records the symbol that its name stands for. -/
theorem recordReference_recordsOnly {n r : Node} (hr : r ∈ n.descendants)
    (hkind : r.kind = .reference) :
    (scope.recordReference r).RecordsOnly (scope.RecordedIn n) := by
  unfold recordReference
  split
  · exact .note _
  · next name hname =>
    split
    · exact scope.failUnresolved_recordsOnly r
    · next target htarget =>
      refine scope.recordTarget_recordsOnly fun identity hidentity => ?_
      exact ⟨name, identity, .reference hr hkind hname htarget hidentity, rfl⟩

/-- A reference of a type is recorded only if it points at a class. -/
theorem recordTypeReference_recordsOnly (reference : Node) :
    (scope.recordTypeReference reference).RecordsOnly (scope.RecordsClass reference) := by
  unfold recordTypeReference
  split
  · exact scope.failUnresolved_recordsOnly reference
  · next qualifiedName htarget =>
    split
    · next name hname => exact .record ⟨name, qualifiedName, hname, htarget, rfl⟩
    · exact .pure _
  · exact .note _

/-- A type is recorded by the classes that the references it is made of point at. -/
theorem recordType_recordsOnly_class (type : Node) :
    (scope.recordType type).RecordsOnly fun r => ∃ reference,
      type.TypeReaches scope.resolver.isClass reference ∧ scope.RecordsClass reference r := by
  refine Scan.RecordsOnly.forM _ fun reference hreference => ?_
  have hreaches := Node.mem_typeReferences_iff.1 hreference
  exact (scope.recordTypeReference_recordsOnly reference).mono fun r hr =>
    ⟨reference, hreaches, hr⟩

/-- A type is recorded by symbols that are named in it. -/
theorem recordType_recordsOnly (type : Node) :
    (scope.recordType type).RecordsOnly (scope.RecordedIn type) := by
  refine (scope.recordType_recordsOnly_class type).mono ?_
  rintro r ⟨reference, hreaches, name, qualifiedName, hname, htarget, rfl⟩
  obtain ⟨hmem, hkind⟩ := hreaches.mem_descendants
  exact ⟨name, .classDecl qualifiedName, .reference hmem hkind hname htarget rfl, rfl⟩

/-- The type of a declaration is recorded by symbols that are named in the declaration. -/
theorem recordDeclaredType_recordsOnly (declaration : Node) :
    (scope.recordDeclaredType declaration).RecordsOnly (scope.RecordedIn declaration) := by
  unfold recordDeclaredType
  split
  · next type htype =>
    have hmem := Node.mem_descendants_of_mem_childNodes (Node.mem_childNodes_of_child? htype)
    exact (scope.recordType_recordsOnly type).mono fun r => FileContext.RecordedIn.mono hmem r
  · exact .pure _

/-- A variable is recorded under its name, next to the symbols of its type. -/
theorem introduceVariable_recordsOnly {n d v : Node} (hd : d ∈ n.descendants)
    (hv : v ∈ d.variableNodes) :
    (scope.introduceVariable v).RecordsOnly (scope.RecordedIn n) := by
  have hmem : v ∈ n.descendants := Node.mem_descendants_of_mem_variableNodes hd hv
  unfold introduceVariable
  refine ((scope.recordDeclaredType_recordsOnly v).mono
    fun r => FileContext.RecordedIn.mono hmem r).bind fun _ => ?_
  split
  · exact scope.warn_recordsOnly _ _
  · next name hname =>
    have hdeclared : name ∈ d.variableNames := List.mem_filterMap.2 ⟨v, hv, hname⟩
    refine (scope.assignIndex_recordsOnly name).bind fun index => ?_
    exact .record ⟨name, _, .declaration hd hdeclared rfl rfl, rfl⟩

/-- Of the elements of a declaration statement only the local variables are recorded. -/
theorem introduceElement_recordsOnly {n d e : Node} (hd : d ∈ n.descendants)
    (hkind : d.kind = .declarationStatement) (he : e ∈ d.declared) :
    (scope.introduceElement e).RecordsOnly (scope.RecordedIn n) := by
  unfold introduceElement
  split
  · next hlocal =>
    have hv : e ∈ d.variableNodes := by
      rw [Node.variableNodes_declarationStatement hkind]
      exact List.mem_filter.2 ⟨List.mem_of_mem_filter he, decide_eq_true hlocal⟩
    exact scope.introduceVariable_recordsOnly hd hv
  · exact scope.warn_recordsOnly _ _
  · exact scope.warn_recordsOnly _ _

/-- The visit of a node records what the node names or declares itself. -/
theorem visitNode_recordsOnly {n d : Node} (hd : d ∈ n.descendants) :
    (scope.visitNode d).RecordsOnly (scope.RecordedIn n) := by
  have hfirst (hk : d.kind = .catchSection ∨ d.kind = .foreachStatement) {parameter : Node}
      (h : d.child? .parameter = some parameter) :
      (scope.introduceVariable parameter).RecordsOnly (scope.RecordedIn n) := by
    refine scope.introduceVariable_recordsOnly hd ?_
    rw [Node.variableNodes_ofParameter hk, h]
    exact List.mem_singleton_self _
  unfold visitNode
  split
  · next hk => exact .forM _ fun e he => scope.introduceElement_recordsOnly hd hk he
  · next hk =>
    split
    · next h => exact hfirst (.inl hk) h
    · exact .pure _
  · next hk =>
    split
    · next h => exact hfirst (.inr hk) h
    · exact .pure _
  · next hk => exact scope.recordReference_recordsOnly hd hk
  · exact .pure _

/-- A marker is not recorded. -/
theorem switchRegion_recordsOnly {P : Record → Prop} (t : Token) :
    (scope.switchRegion t).RecordsOnly P := by
  unfold switchRegion
  split
  · split
    · exact .pure _
    · refine Scan.RecordsOnly.get.bind fun state => ?_
      dsimp only
      split
      · exact (Scan.RecordsOnly.note _).bind fun _ => .modify _
      · exact .modify _
  · exact .pure _

/-- A walk records only what is named in the code that it goes through. -/
theorem walk_recordsOnly (n : Node) : (scope.walk n).RecordsOnly (scope.RecordedIn n) := by
  refine Scan.RecordsOnly.forM _ fun item hitem => ?_
  cases item with
  | node d => exact scope.visitNode_recordsOnly (Node.mem_descendants_iff.2 hitem)
  | token t => exact scope.switchRegion_recordsOnly t

/-- The walk of a part of a declaration records only what is named in the declaration. -/
theorem walkPart_recordsOnly (n : Node) (kind : Kind) :
    (scope.walkPart n kind).RecordsOnly (scope.RecordedIn n) := by
  unfold walkPart
  split
  · next part hpart =>
    have hmem := Node.mem_descendants_of_mem_childNodes (Node.mem_childNodes_of_child? hpart)
    exact (scope.walk_recordsOnly part).mono fun r => FileContext.RecordedIn.mono hmem r
  · exact .pure _

/-! ### Nothing is left out -/

variable {scope}

/-- A reference of a type that points at a class is recorded. -/
theorem recordTypeReference_recordsSome {reference : Node} {r : Record}
    (h : scope.RecordsClass reference r) :
    (scope.recordTypeReference reference).RecordsSome (· = r) := by
  obtain ⟨name, qualifiedName, hname, htarget, rfl⟩ := h
  unfold recordTypeReference
  rw [htarget, hname]
  exact .record rfl

/-- A class that a type is made of is recorded when the type is. -/
theorem recordType_recordsSome {type reference : Node} {r : Record}
    (hreference : type.TypeReaches scope.resolver.isClass reference)
    (h : scope.RecordsClass reference r) : (scope.recordType type).RecordsSome (· = r) :=
  .forM (Node.mem_typeReferences_iff.2 hreference) (recordTypeReference_recordsSome h)

/-- A class that a reference points at is recorded when the code is walked. -/
theorem walk_recordsSome_class {n reference : Node} {r : Record}
    (hreference : reference ∈ n.descendants) (hkind : reference.kind = .reference)
    (h : scope.RecordsClass reference r) : (scope.walk n).RecordsSome (· = r) := by
  obtain ⟨name, qualifiedName, hname, htarget, rfl⟩ := h
  have hvisit : scope.visit (.node reference) =
      scope.recordTarget name (.classDecl qualifiedName) :=
    scope.perform_reference hkind hname htarget
  refine Scan.RecordsSome.forM (Node.mem_descendants_iff.1 hreference) ?_
  rw [hvisit]
  exact .record rfl

/-- A variable is recorded when the code that declares it is walked. -/
theorem walk_recordsSome_variable {n d : Node} {name : Token} (hd : d ∈ n.descendants)
    (hname : name ∈ d.variableNames) :
    (scope.walk n).RecordsSome fun r => ∃ index, r = scope.variableRecord name index := by
  have hkind : d.kind ≠ .reference := by
    intro hk
    rw [Node.variableNames_of_reference hk] at hname
    cases hname
  refine Scan.RecordsSome.forM (Node.mem_descendants_iff.1 hd) ?_
  intro s u hok
  obtain ⟨-, -, -, hrecords⟩ := scope.visitNode_declares hkind s hok
  have hnumbered : name ∈ (s.locals.numberedFrom
      (d.variableNames.map fun name => (name, s.region))).map Prod.fst := by
    rw [IndexTable.map_fst_numberedFrom, List.map_map]
    exact List.mem_map.2 ⟨name, hname, rfl⟩
  obtain ⟨⟨_, index⟩, hmem, rfl⟩ := List.mem_map.1 hnumbered
  have hrecord := List.mem_map_of_mem (f := fun v => scope.variableRecord v.1 v.2) hmem
  rw [← hrecords] at hrecord
  exact ⟨_, List.mem_of_mem_filter hrecord, index, rfl⟩

end Scope

end SymbolRanges

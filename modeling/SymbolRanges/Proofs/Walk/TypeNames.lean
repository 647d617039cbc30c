import SymbolRanges.Proofs.Walk.Records

/-!
# The class names of a type

The classes of a type are recorded in two ways. The type of a declaration is taken apart into its
name, the arguments of its name and the types nested in it, and a type in code is walked through
like everything else there. The first way does not go everywhere: it never looks at the qualifier
of a name, so that `Outer.Inner` records `Inner` alone, while a walk records both.

`Node.Overlooks` says which parts of a type are passed over when it is taken apart, and
`recordType_records_all_but_overlooked` that the classes named there are all that is lost.
-/

set_option autoImplicit false

namespace SymbolRanges

/-- Whether a target is what a name in a type can stand for: a class, or a package that
qualifies one. -/
def Target.isTypeName : Target → Bool
  | .classDecl _ => true
  | .package _ => true
  | _ => false

/-- Every reference below a node has a name and points at a class or a package. -/
def Resolver.NamesTypes (resolver : Resolver) (n : Node) : Prop :=
  ∀ r ∈ n.descendants, r.kind = .reference →
    r.referenceName?.isSome = true ∧ (resolver.target? r).any Target.isTypeName = true

instance (resolver : Resolver) (n : Node) : Decidable (resolver.NamesTypes n) :=
  inferInstanceAs (Decidable (∀ r ∈ n.descendants, r.kind = .reference →
    r.referenceName?.isSome = true ∧ (resolver.target? r).any Target.isTypeName = true))

/-- Whether an identity is that of a class. -/
def Identity.isClass : Identity → Bool
  | .classDecl _ => true
  | _ => false

/-- The records of classes in a journal. -/
def Journal.classRecords (journal : Journal) : List Record :=
  (Journal.records journal).filter fun r => r.identity.isClass

/-! ### What is passed over -/

/-- The nodes below a type that are passed over when it is taken apart: those in a child that is
neither its name nor a nested type, those in a part of the name that is not the list of arguments
of a class, such as its qualifier, those in a part of that list that is not a type, and those that
a type argument or a nested type passes over. -/
inductive Node.Overlooks (isClass : Node → Bool) : Node → Node → Prop
  | beside {type c found : Node} (hc : c ∈ type.childNodes) (hkind : c.kind ≠ .type)
    (hname : type.child? .reference ≠ some c) (hfound : found ∈ c.descendants) :
    Overlooks isClass type found
  | inName {type name c found : Node} (hname : type.child? .reference = some name)
    (hc : c ∈ name.childNodes)
    (hlist : isClass name = true → name.child? .typeArgumentList ≠ some c)
    (hfound : found ∈ c.descendants) : Overlooks isClass type found
  | inArguments {type name list c found : Node} (hname : type.child? .reference = some name)
    (hlist : name.child? .typeArgumentList = some list) (hc : c ∈ list.childNodes)
    (hkind : c.kind ≠ .type) (hfound : found ∈ c.descendants) : Overlooks isClass type found
  | argument {type name argument found : Node} (hname : type.child? .reference = some name)
    (hclass : isClass name = true) (ha : argument ∈ name.typeArguments)
    (hfound : Overlooks isClass argument found) : Overlooks isClass type found
  | nested {type inner found : Node} (hi : inner ∈ type.innerTypes)
    (hfound : Overlooks isClass inner found) : Overlooks isClass type found

namespace Node

variable {isClass : Node → Bool}

/-- What is passed over in a type stands below it. -/
theorem Overlooks.mem_descendants {type found : Node} (h : type.Overlooks isClass found) :
    found ∈ type.descendants := by
  induction h with
  | beside hc _ _ hfound => exact mem_descendants_of_below_child hc hfound
  | inName hname hc _ hfound =>
    have hbelow := mem_descendants_of_below_child hc hfound
    exact mem_descendants_of_below_child (mem_childNodes_of_child? hname) hbelow
  | inArguments hname hlist hc _ hfound =>
    have hbelow := mem_descendants_of_below_child (mem_childNodes_of_child? hlist)
      (mem_descendants_of_below_child hc hfound)
    exact mem_descendants_of_below_child (mem_childNodes_of_child? hname) hbelow
  | argument hname _ ha _ ih =>
    have hbelow := mem_descendants_trans (mem_descendants_of_mem_typeArguments ha) ih
    exact mem_descendants_of_below_child (mem_childNodes_of_child? hname) hbelow
  | nested hi _ ih =>
    exact mem_descendants_of_below_child (mem_childNodes_of_mem_childrenOfKind hi) ih

/-- What stands below a node is the node itself or stands below one of its children. -/
theorem eq_or_below_child {n found : Node} (h : found ∈ n.descendants) :
    found = n ∨ ∃ c ∈ n.childNodes, found ∈ c.descendants := by
  rw [descendants_eq] at h
  rcases List.mem_cons.1 h with heq | hbelow
  · exact .inl heq
  · exact .inr (List.mem_flatMap.1 hbelow)

/-- A reference below a node of another kind stands below one of its children. -/
theorem below_child_of_reference {n found : Node} (hn : n.kind ≠ .reference)
    (hfound : found.kind = .reference) (h : found ∈ n.descendants) :
    ∃ c ∈ n.childNodes, found ∈ c.descendants := by
  rcases eq_or_below_child h with rfl | hbelow
  · exact absurd hfound hn
  · exact hbelow

/-- A reference below a type is one that the type is made of, or it is passed over. -/
theorem typeReaches_or_overlooks {type found : Node} (htype : type.kind = .type)
    (hfound : found.kind = .reference) (h : found ∈ type.descendants) :
    type.TypeReaches isClass found ∨ type.Overlooks isClass found := by
  obtain ⟨c, hc, hbelow⟩ := below_child_of_reference (by simp [htype]) hfound h
  by_cases hkind : c.kind = .type
  · have hinner : c ∈ type.innerTypes := List.mem_filter.2 ⟨hc, decide_eq_true hkind⟩
    have hsmaller : sizeOf c.children < sizeOf type.children := sizeOf_children_lt hc
    exact (typeReaches_or_overlooks hkind hfound hbelow).imp (.nested hinner) (.nested hinner)
  by_cases hname : type.child? .reference = some c
  swap
  · exact .inr (.beside hc hkind hname hbelow)
  rcases eq_or_below_child hbelow with rfl | ⟨d, hd, hbelow⟩
  · exact .inl (.name hname)
  by_cases hlist : isClass c = true ∧ c.child? .typeArgumentList = some d
  swap
  · exact .inr (.inName hname hd (fun hclass hlist' => hlist ⟨hclass, hlist'⟩) hbelow)
  obtain ⟨hclass, hlist⟩ := hlist
  have hlistKind : d.kind ≠ .reference := by simp [kind_of_child? hlist]
  obtain ⟨e, he, hbelow⟩ := below_child_of_reference hlistKind hfound hbelow
  by_cases hargument : e.kind = .type
  · have hmem : e ∈ c.typeArguments := by
      unfold typeArguments
      rw [hlist]
      exact List.mem_filter.2 ⟨he, decide_eq_true hargument⟩
    have hsmaller : sizeOf e.children < sizeOf type.children :=
      Nat.lt_trans (sizeOf_children_lt_of_mem_typeArguments hmem) (sizeOf_children_lt hc)
    exact (typeReaches_or_overlooks hargument hfound hbelow).imp (.argument hname hclass hmem)
      (.argument hname hclass hmem)
  · exact .inr (.inArguments hname hlist he hargument hbelow)
termination_by sizeOf type.children

end Node

/-! ### What is recorded -/

/-- Where every reference names a type, every reference resolves. -/
theorem Resolver.NamesTypes.resolves {resolver : Resolver} {n r : Node}
    (h : resolver.NamesTypes n) (hr : r ∈ n.descendants) (hkind : r.kind = .reference) :
    resolver.Resolves r := by
  have htarget := (h r hr hkind).2
  unfold Resolver.Resolves
  cases hr : resolver.target? r with
  | none =>
    rw [hr] at htarget
    cases htarget
  | some target => rfl

/-- Code in which every reference names a type resolves. -/
theorem Resolver.NamesTypes.resolvesCode {resolver : Resolver} {n : Node}
    (h : resolver.NamesTypes n) : resolver.ResolvesCode n := by
  refine ⟨fun r hr hkind _ => h.resolves hr hkind, ?_⟩
  intro d hd v hv type htype reference hreaches
  have hbelow := Node.mem_descendants_of_child_below
    (Node.mem_descendants_of_mem_variableNodes hd hv) (Node.mem_childNodes_of_child? htype)
  obtain ⟨hreference, hkind⟩ := hreaches.mem_descendants
  exact h.resolves (Node.mem_descendants_trans hbelow hreference) hkind

namespace Scope

variable {scope : Scope}

/-- A reference of a type that resolves gives a value. -/
theorem result_recordTypeReference {reference : Node} (h : scope.resolver.Resolves reference)
    (s : WalkState) : ((scope.recordTypeReference reference).run s).result = .ok () := by
  obtain ⟨target, htarget⟩ := Option.isSome_iff_exists.1 h
  unfold recordTypeReference
  rw [htarget]
  cases target with
  | classDecl qualifiedName =>
    dsimp only
    cases reference.referenceName? <;> rfl
  | _ => rfl

/-- A type that resolves gives a value. -/
theorem result_recordType {type : Node} (h : scope.resolver.ResolvesType type) (s : WalkState) :
    ((scope.recordType type).run s).result = .ok () := by
  refine Scan.result_forM_of_ok (fun reference hreference s => ?_) s
  exact result_recordTypeReference (h reference (Node.mem_typeReferences_iff.1 hreference)) s

/-- The record of a class has the identity of a class. -/
theorem RecordsClass.isClass {reference : Node} {r : Record}
    (h : scope.RecordsClass reference r) : r.identity.isClass = true := by
  obtain ⟨name, qualifiedName, -, -, rfl⟩ := h
  rfl

/-- Only a reference that points at a class has the record of a class. -/
theorem RecordsClass.isClass_reference {reference : Node} {r : Record}
    (h : scope.RecordsClass reference r) : scope.resolver.isClass reference = true := by
  obtain ⟨name, qualifiedName, -, htarget, -⟩ := h
  unfold Resolver.isClass
  rw [htarget]
  rfl

/-- The classes recorded for a type that resolves are those of the references it is made of. -/
theorem mem_classRecords_recordType_iff {type : Node} {s : WalkState}
    (hok : ((scope.recordType type).run s).result = .ok ()) {r : Record} :
    r ∈ Journal.classRecords ((scope.recordType type).run s).journal ↔
      ∃ reference, type.TypeReaches scope.resolver.isClass reference ∧
        scope.RecordsClass reference r := by
  unfold Journal.classRecords
  rw [List.mem_filter]
  constructor
  · rintro ⟨hmem, -⟩
    exact scope.recordType_recordsOnly_class type s r hmem
  · rintro ⟨reference, hreaches, hrecords⟩
    obtain ⟨_, hmem, rfl⟩ := recordType_recordsSome hreaches hrecords s () hok
    exact ⟨hmem, hrecords.isClass⟩

/-- The classes recorded by a walk that succeeds are those of the references in the code. -/
theorem mem_classRecords_walk_iff {n : Node} {s : WalkState}
    (hok : ((scope.walk n).run s).result = .ok ()) {r : Record} :
    r ∈ Journal.classRecords ((scope.walk n).run s).journal ↔
      ∃ reference ∈ n.descendants, reference.kind = .reference ∧
        scope.RecordsClass reference r := by
  unfold Journal.classRecords
  rw [List.mem_filter]
  constructor
  · rintro ⟨hmem, hclass⟩
    obtain ⟨t, identity, hnames, rfl⟩ := scope.walk_recordsOnly n s r hmem
    cases hnames with
    | declaration hd hname htext hindex => cases hclass
    | @reference reference _ target _ hreference hkind hname htarget hidentity =>
      refine ⟨reference, hreference, hkind, ?_⟩
      cases identity with
      | classDecl qualifiedName =>
        cases target with
        | classDecl _ =>
          cases hidentity
          exact ⟨t, qualifiedName, hname, htarget, rfl⟩
        | parameter _ _ site => cases site <;> cases hidentity
        | _ => cases hidentity
      | _ => cases hclass
  · rintro ⟨reference, hreference, hkind, hrecords⟩
    obtain ⟨_, hmem, rfl⟩ := walk_recordsSome_class hreference hkind hrecords s () hok
    exact ⟨hmem, hrecords.isClass⟩

end Scope

/-- When every reference of a type has a name and points at a class or a package, taking the type
apart records the classes that the type is made of, and a walk through it, unless a counter is used
up, records just these and the classes of the references that are passed over. So nothing is lost
if no reference that is passed over points at a class. -/
theorem recordType_records_all_but_overlooked (scope : Scope) (type : Node) (s s' : WalkState)
    (htype : type.kind = .type) (hnames : scope.resolver.NamesTypes type)
    (hcount : ((scope.walk type).run s').result ≠ .error .indexOverflow) :
    ((scope.recordType type).run s).result = .ok () ∧
    ((scope.walk type).run s').result = .ok () ∧
    (∀ r, r ∈ Journal.classRecords ((scope.recordType type).run s).journal ↔
      ∃ reference, type.TypeReaches scope.resolver.isClass reference ∧
        scope.RecordsClass reference r) ∧
    (∀ r, r ∈ Journal.classRecords ((scope.walk type).run s').journal ↔
      r ∈ Journal.classRecords ((scope.recordType type).run s).journal ∨
      ∃ reference, type.Overlooks scope.resolver.isClass reference ∧
        reference.kind = .reference ∧ scope.RecordsClass reference r) ∧
    ((∀ reference, type.Overlooks scope.resolver.isClass reference →
        reference.kind = .reference → scope.resolver.isClass reference = false) →
      ∀ r, r ∈ Journal.classRecords ((scope.recordType type).run s).journal ↔
        r ∈ Journal.classRecords ((scope.walk type).run s').journal) := by
  have hresolves : scope.resolver.ResolvesType type := by
    intro reference hreaches
    obtain ⟨hmem, hkind⟩ := hreaches.mem_descendants
    exact hnames.resolves hmem hkind
  have hrecorded := Scope.result_recordType hresolves s
  have hwalked := (scope.walk_decides type).result_eq_ok hnames.resolvesCode hcount
  have hall (r : Record) : r ∈ Journal.classRecords ((scope.walk type).run s').journal ↔
      r ∈ Journal.classRecords ((scope.recordType type).run s).journal ∨
      ∃ reference, type.Overlooks scope.resolver.isClass reference ∧
        reference.kind = .reference ∧ scope.RecordsClass reference r := by
    -- a walk meets every reference below the type, reached or overlooked
    rw [Scope.mem_classRecords_walk_iff hwalked, Scope.mem_classRecords_recordType_iff hrecorded]
    constructor
    · rintro ⟨reference, hmem, hkind, hrecords⟩
      rcases Node.typeReaches_or_overlooks htype hkind hmem with hreaches | hoverlooks
      · exact .inl ⟨reference, hreaches, hrecords⟩
      · exact .inr ⟨reference, hoverlooks, hkind, hrecords⟩
    · rintro (⟨reference, hreaches, hrecords⟩ | ⟨reference, hoverlooks, hkind, hrecords⟩)
      · exact ⟨reference, hreaches.mem_descendants.1, hreaches.mem_descendants.2, hrecords⟩
      · exact ⟨reference, hoverlooks.mem_descendants, hkind, hrecords⟩
  refine ⟨hrecorded, hwalked, fun r => Scope.mem_classRecords_recordType_iff hrecorded, hall, ?_⟩
  intro hnone r
  rw [hall]
  refine ⟨.inl, ?_⟩
  rintro (hmem | ⟨reference, hoverlooks, hkind, hrecords⟩)
  · exact hmem
  · have hclass := hrecords.isClass_reference
    rw [hnone reference hoverlooks hkind] at hclass
    cases hclass

/-- The type `Map<Outer.Inner, ? extends Other>`. -/
def sampleType : Node :=
  ⟨⟨0⟩, 0, .type,
    [.node .reference
      [.token .ident "Map",
        .node .typeArgumentList
          [.token .lessThan "<",
            .node .type
              [.node .reference
                [.node .reference [.token .ident "Outer"], .token .dot ".", .token .ident "Inner"]],
            .token .comma ",",
            .node .type
              [.token .question "?", .token .extendsKw "extends",
                .node .type [.node .reference [.token .ident "Other"]]],
            .token .greaterThan ">"]]]⟩

/-- The classes that the names of the sample type stand for. -/
def sampleTypeBindings : Bindings :=
  (((Bindings.empty.insertReference (.ofSize 0 3) (.classDecl "Map")).insertReference
    (.ofSize 4 5) (.classDecl "Outer")).insertReference
    (.ofSize 10 5) (.classDecl "Outer.Inner")).insertReference (.ofSize 24 5) (.classDecl "Other")

/-- Taken apart, the sample type records three of its four classes, and the one that is lost is
that of a reference which is passed over. -/
theorem recordType_records_all_but_overlooked_sample :
    let scope : Scope :=
      ⟨.ofText "A.java" sampleType.text sampleTypeBindings.resolver {}, "A", .outsideMethod⟩
    Journal.classRecords ((scope.recordType sampleType).run (.initial {})).journal =
      [scope.classRecord ⟨0, .ident, "Map"⟩ "Map",
        scope.classRecord ⟨10, .ident, "Inner"⟩ "Outer.Inner",
        scope.classRecord ⟨24, .ident, "Other"⟩ "Other"] ∧
    ∃ reference, sampleType.Overlooks scope.resolver.isClass reference ∧
      scope.RecordsClass reference (scope.classRecord ⟨4, .ident, "Outer"⟩ "Outer") := by
  intro scope
  have hnames : scope.resolver.NamesTypes sampleType := by decide +kernel
  have hcount : ((scope.walk sampleType).run (.initial {})).result ≠ .error .indexOverflow := by
    decide +kernel
  have hrecorded : Journal.classRecords ((scope.recordType sampleType).run (.initial {})).journal =
      [scope.classRecord ⟨0, .ident, "Map"⟩ "Map",
        scope.classRecord ⟨10, .ident, "Inner"⟩ "Outer.Inner",
        scope.classRecord ⟨24, .ident, "Other"⟩ "Other"] := by
    decide +kernel
  have hwalked : scope.classRecord ⟨4, .ident, "Outer"⟩ "Outer" ∈
      Journal.classRecords ((scope.walk sampleType).run (.initial {})).journal := by
    decide +kernel
  obtain ⟨-, -, -, hall, -⟩ := recordType_records_all_but_overlooked scope sampleType
    (.initial {}) (.initial {}) rfl hnames hcount
  refine ⟨hrecorded, ?_⟩
  rcases (hall _).1 hwalked with hmem | ⟨reference, hoverlooks, -, hrecords⟩
  · rw [hrecorded] at hmem
    exact absurd hmem (by decide +kernel)
  · exact ⟨reference, hoverlooks, hrecords⟩

/-- The type `Outer.Inner`. -/
def qualifiedType : Node :=
  ⟨⟨0⟩, 0, .type,
    [.node .reference
      [.node .reference [.token .ident "Outer"], .token .dot ".", .token .ident "Inner"]]⟩

/-- The classes that the names of the qualified type stand for. -/
def qualifiedTypeBindings : Bindings :=
  (Bindings.empty.insertReference (.ofSize 0 5) (.classDecl "Outer")).insertReference
    (.ofSize 6 5) (.classDecl "Outer.Inner")

/-- Every reference of `Outer.Inner` points at a class, and a walk records both, but taken apart the
type records `Inner` alone. -/
theorem recordType_overlooks_qualifier :
    let scope : Scope :=
      ⟨.ofText "A.java" qualifiedType.text qualifiedTypeBindings.resolver {}, "A", .outsideMethod⟩
    qualifiedType.kind = .type ∧ scope.resolver.NamesTypes qualifiedType ∧
    Journal.classRecords ((scope.recordType qualifiedType).run (.initial {})).journal =
      [scope.classRecord ⟨6, .ident, "Inner"⟩ "Outer.Inner"] ∧
    Journal.classRecords ((scope.walk qualifiedType).run (.initial {})).journal =
      [scope.classRecord ⟨6, .ident, "Inner"⟩ "Outer.Inner",
        scope.classRecord ⟨0, .ident, "Outer"⟩ "Outer"] := by
  decide +kernel

end SymbolRanges

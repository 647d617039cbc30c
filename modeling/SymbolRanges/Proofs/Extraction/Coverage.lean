import SymbolRanges.Proofs.Extraction.Classes
import SymbolRanges.Proofs.Text.Offset
import SymbolRanges.Proofs.Walk.Records

/-!
# Records cover the identifiers that they name

A range map is used to replace identifiers in a text, so a record must cover one identifier and
nothing else, in the unit that offsets are counted in. `Node.Names` lists the ways in which an
element of a file names a symbol, and `Node.Declares` and `Node.DeclaresVariable` those in which it
declares one.

`extract_records_cover_identifiers` is the result: every record of a file covers an element that
names its symbol, and every name that the file declares is covered by a record under that name.
-/

set_option autoImplicit false

namespace SymbolRanges

/-! ### How a file names symbols -/

/-- The names that the classes of a file and their members declare, each with the identity of what
it declares. -/
inductive Node.Declares (resolver : Resolver) (root : Node) : Token → Identity → Prop
  | classDecl {qualifier : Option String} {c : Node} {name : Token}
    (hc : root.HasClass qualifier c) (hname : c.nameToken? = some name) :
    Declares resolver root name (.classDecl (qualify qualifier name.text))
  | field {owner : String} {f : Node} {name : Token} (hf : root.HasDeclaration (.field owner f))
    (hname : f.nameToken? = some name) : Declares resolver root name (.field owner name.text)
  | enumConstant {owner : String} {e : Node} {name : Token}
    (he : root.HasDeclaration (.enumConstant owner e)) (hname : e.nameToken? = some name) :
    Declares resolver root name (.field owner name.text)
  | method {owner : String} {m : Node} {name : Token} {type : MethodType}
    (hm : root.HasDeclaration (.method owner m)) (hname : m.nameToken? = some name)
    (htype : resolver.methodType? m = some type) :
    Declares resolver root name (.method owner name.text type.descriptor)
  | parameter {owner : String} {m p : Node} {name t : Token} {type : MethodType} {index : Nat}
    (hm : root.HasDeclaration (.method owner m)) (hname : m.nameToken? = some name)
    (htype : resolver.methodType? m = some type) (hp : m.parameters[index]? = some p)
    (ht : p.nameToken? = some t) :
    Declares resolver root t
      (.parameter ⟨owner, ⟨name.text, type.descriptor⟩, t.text, some index⟩)

/-- The names of the local variables that the code of a class declares. -/
def Node.DeclaresVariable (root : Node) (owner : String) (name : Token) : Prop :=
  ∃ c part d, root.HasNamedClass owner c ∧ c.CodePart part ∧ d ∈ part.descendants ∧
    name ∈ d.variableNames

/-- How an element of a file names a symbol. -/
inductive Node.Names (resolver : Resolver) (root : Node) : Item → Identity → Prop
  | package {statement reference : Node} (hs : root.child? .packageStatement = some statement)
    (hr : statement.child? .reference = some reference) :
    Names resolver root (.node reference) (.package root.packageName)
  | imported {statement reference : Node} (hs : statement ∈ root.childrenOfKind .importStatement)
    (hr : statement.child? .reference = some reference) :
    Names resolver root (.node reference) (.classDecl reference.spelling)
  | inCode {t : Token} {identity : Identity} (h : resolver.NamesIn root t identity) :
    Names resolver root (.token t) identity
  | declared {t : Token} {identity : Identity} (h : root.Declares resolver t identity) :
    Names resolver root (.token t) identity

/-- An identifier, `this` or `super`, or the reference of the package statement or of an import. -/
def Node.IsIdentifier (root : Node) : Item → Prop
  | .token t => t.kind = .ident ∨ t.kind = .thisKw ∨ t.kind = .superKw
  | .node n => ∃ statement ∈ root.childNodes,
    (statement.kind = .packageStatement ∨ statement.kind = .importStatement) ∧
      statement.child? .reference = some n

/-- A record that covers an element of a file: in its unit it starts where the text before the
element ends, and stops where the text of the element does. -/
def Record.Covers (r : Record) (encoding : Encoding) (root : Node) (x : Item) : Prop :=
  ∃ before after, root.text = before ++ x.text ++ after ∧ before.utf8ByteSize = x.start ∧
    encoding.units before = r.start ∧ encoding.units (before ++ x.text) = r.stop

namespace Node

variable {resolver : Resolver} {root : Node}

/-- The parameters of a method stand below it. -/
theorem mem_descendants_of_mem_parameters {m p : Node} (hp : p ∈ m.parameters) :
    p ∈ m.descendants := by
  rw [parameters_eq] at hp
  obtain ⟨list, hlist, hmem⟩ := List.mem_flatMap.1 hp
  have hlist := mem_childNodes_of_child? (Option.mem_toList.1 hlist)
  exact mem_descendants_of_child_below (mem_descendants_of_mem_childNodes hlist)
    (mem_childNodes_of_mem_childrenOfKind hmem)

/-- A token that declares a class or member is an identifier of the file. -/
theorem Declares.ident_below {t : Token} {identity : Identity}
    (h : root.Declares resolver t identity) :
    Item.token t ∈ root.preorder ∧ t.kind = .ident := by
  cases h with
  | classDecl hc hname => exact Node.ident_below hc.mem_descendants hname
  | field hf hname => exact Node.ident_below hf.mem_descendants hname
  | enumConstant he hname => exact Node.ident_below he.mem_descendants hname
  | method hm hname htype => exact Node.ident_below hm.mem_descendants hname
  | parameter hm _ _ hp ht =>
    have hparameter := mem_descendants_of_mem_parameters (List.mem_of_getElem? hp)
    exact Node.ident_below (mem_descendants_trans hm.mem_descendants hparameter) ht

/-- The name of a reference of the file is an identifier, `this` or `super`. -/
theorem referenceName_below {r : Node} {t : Token} (hr : r ∈ root.descendants)
    (ht : r.referenceName? = some t) :
    Item.token t ∈ root.preorder ∧ root.IsIdentifier (.token t) := by
  have hmem := List.mem_of_getLast? ht
  have hnames := of_decide_eq_true (List.mem_filter.1 hmem).2
  exact ⟨token_mem_preorder hr (List.mem_of_mem_filter hmem), hnames⟩

/-- The reference of a statement of the head stands in the file. -/
theorem child_below {statement reference : Node} (hs : statement ∈ root.childNodes)
    (hr : statement.child? .reference = some reference) : Item.node reference ∈ root.preorder :=
  mem_descendants_iff.1 (mem_descendants_of_child_below (mem_descendants_of_mem_childNodes hs)
    (mem_childNodes_of_child? hr))

/-- What names a symbol is an identifier of the file. -/
theorem Names.isIdentifier {x : Item} {identity : Identity} (h : root.Names resolver x identity) :
    x ∈ root.preorder ∧ root.IsIdentifier x := by
  cases h with
  | package hs hr =>
    have hchild := mem_childNodes_of_child? hs
    exact ⟨child_below hchild hr, _, hchild, .inl (kind_of_child? hs), hr⟩
  | imported hs hr =>
    have hchild := mem_childNodes_of_mem_childrenOfKind hs
    have hkind := of_decide_eq_true (List.mem_filter.1 hs).2
    exact ⟨child_below hchild hr, _, hchild, .inr hkind, hr⟩
  | inCode h =>
    cases h with
    | reference hr _ hname _ _ => exact referenceName_below hr hname
    | declaration hd hname _ _ =>
      obtain ⟨hmem, hkind⟩ := ident_below_of_mem_variableNames hd hname
      exact ⟨hmem, .inl hkind⟩
  | declared h => exact ⟨h.ident_below.1, .inl h.ident_below.2⟩

/-- The header of a class is made of its children. -/
theorem header_mem_childNodes {n part : Node} (h : part ∈ n.header) : part ∈ n.childNodes :=
  List.mem_of_mem_filter h

/-- The initializer of a field is one of its children. -/
theorem initializer?_mem_childNodes {n i : Node} (h : n.initializer? = some i) :
    i ∈ n.childNodes := by
  unfold initializer? at h
  obtain ⟨item, hitem, hnode⟩ := List.exists_of_findSome?_eq_some h
  exact List.mem_filterMap.2 ⟨item, (List.dropWhile_suffix _).subset hitem, hnode⟩

/-- The code of a class stands below the file. -/
theorem HasNamedClass.codePart_mem_descendants {owner : String} {c part : Node}
    (hc : root.HasNamedClass owner c) (hpart : c.CodePart part) : part ∈ root.descendants := by
  cases hpart with
  | header h =>
    obtain ⟨_, _, hclass, -, -⟩ := hc
    exact mem_descendants_of_child_below hclass.mem_descendants (header_mem_childNodes h)
  | fieldModifiers hf h =>
    have hfield := hc.member_mem_descendants hf
    exact mem_descendants_of_child_below hfield (mem_childNodes_of_child? h)
  | fieldInitializer hf h =>
    have hfield := hc.member_mem_descendants hf
    exact mem_descendants_of_child_below hfield (initializer?_mem_childNodes h)
  | enumConstant he _ h =>
    exact mem_descendants_of_child_below (hc.member_mem_descendants he) h
  | classInitializer h => exact hc.member_mem_descendants h
  | method hm _ _ h =>
    have hmethod := hc.member_mem_descendants hm
    exact mem_descendants_of_child_below hmethod (mem_childNodes_of_child? h)
  | parameterModifiers hm _ hp h =>
    have hparameter := mem_descendants_trans (hc.member_mem_descendants hm)
      (mem_descendants_of_mem_parameters hp)
    exact mem_descendants_of_child_below hparameter (mem_childNodes_of_child? h)

end Node

/-! ### Every record names its symbol -/

/-- A record of a symbol at the place of an element that names it in a file. -/
def FileContext.NamedIn (context : FileContext) (root : Node) (r : Record) : Prop :=
  ∃ x identity, root.Names context.resolver x identity ∧ r = context.recordAt x.span identity

/-- What code of a file names is named in the file. -/
theorem FileContext.RecordedIn.namedIn {context : FileContext} {root n : Node}
    (hn : n ∈ root.descendants) (r : Record) (h : context.RecordedIn n r) :
    context.NamedIn root r := by
  obtain ⟨t, identity, hnames, rfl⟩ := h
  exact ⟨.token t, identity, .inCode (hnames.mono hn), rfl⟩

namespace Scope

variable (scope : Scope) {root n : Node} (hn : n ∈ root.descendants)

include hn

/-- A walk of code of a file records only what the file names. -/
theorem walk_namedIn : (scope.walk n).RecordsOnly (scope.NamedIn root) :=
  (scope.walk_recordsOnly n).mono fun r => FileContext.RecordedIn.namedIn hn r

/-- The walk of a part of a declaration records only what the file names. -/
theorem walkPart_namedIn (kind : Kind) :
    (scope.walkPart n kind).RecordsOnly (scope.NamedIn root) :=
  (scope.walkPart_recordsOnly n kind).mono fun r => FileContext.RecordedIn.namedIn hn r

/-- The type of a declaration is recorded by what the file names. -/
theorem recordDeclaredType_namedIn :
    (scope.recordDeclaredType n).RecordsOnly (scope.NamedIn root) :=
  (scope.recordDeclaredType_recordsOnly n).mono fun r => FileContext.RecordedIn.namedIn hn r

end Scope

namespace FileContext

variable {context : FileContext} {root n : Node} {owner : String}

/-- The record of a name that declares something is one of what the file names. -/
theorem record_namedIn {σ : Type} {t : Token} {identity : Identity}
    (h : root.Declares context.resolver t identity) :
    (context.record t.span identity : Scan σ Unit).RecordsOnly (context.NamedIn root) :=
  .record ⟨.token t, identity, .declared h, rfl⟩

/-- The warning about a missing name is no record. -/
theorem warnNameless_recordsOnly {σ : Type} {P : Record → Prop} (what : String) :
    (context.warnNameless n what : Scan σ Unit).RecordsOnly P :=
  .diagnostic _

/-- The scan of a class records only what the file names. -/
theorem scanClass_namedIn {qualifier : Option String} (hn : root.HasClass qualifier n) :
    (context.scanClass qualifier n).RecordsOnly (context.NamedIn root) := by
  unfold scanClass
  split
  · exact warnNameless_recordsOnly _
  · next name hname =>
    refine (record_namedIn (.classDecl hn hname)).bind fun _ => Scan.RecordsOnly.fresh ?_ _
    refine .forM _ fun part hpart => Scope.walk_namedIn ⟨context, _, _⟩ ?_
    exact Node.mem_descendants_of_child_below hn.mem_descendants (Node.header_mem_childNodes hpart)

/-- The scan of a field records only what the file names. -/
theorem scanField_namedIn (hn : root.HasDeclaration (.field owner n)) :
    (context.scanField owner n).RecordsOnly (context.NamedIn root) := by
  have hmem : n ∈ root.descendants := hn.mem_descendants
  have hinitializer {i : Node} (hi : n.initializer? = some i) :
      (Scope.walk ⟨context, owner, .outsideMethod⟩ i).RecordsOnly (context.NamedIn root) :=
    Scope.walk_namedIn ⟨context, owner, .outsideMethod⟩
      (Node.mem_descendants_of_child_below hmem (Node.initializer?_mem_childNodes hi))
  unfold scanField
  refine Scan.RecordsOnly.fresh ?_ _
  refine (Scope.walkPart_namedIn _ hmem _).bind fun _ => ?_
  refine (Scope.recordDeclaredType_namedIn _ hmem).bind fun _ => ?_
  cases hname : n.nameToken? with
  | none =>
    refine (warnNameless_recordsOnly _).bind fun _ => ?_
    split
    · exact .pure _
    · next h => exact hinitializer h
  | some name =>
    refine (record_namedIn (.field hn hname)).bind fun _ => ?_
    split
    · exact .pure _
    · next h => exact hinitializer h

/-- The scan of an enum constant records only what the file names. -/
theorem scanEnumConstant_namedIn (hn : root.HasDeclaration (.enumConstant owner n)) :
    (context.scanEnumConstant owner n).RecordsOnly (context.NamedIn root) := by
  unfold scanEnumConstant
  split
  · exact warnNameless_recordsOnly _
  · next name hname =>
    refine (record_namedIn (.enumConstant hn hname)).bind fun _ => Scan.RecordsOnly.fresh ?_ _
    refine .forM _ fun child hchild => Scope.walk_namedIn ⟨context, _, _⟩ ?_
    exact Node.mem_descendants_of_child_below hn.mem_descendants hchild

/-- A parameter of a method is recorded under the name that declares it. -/
theorem introduceParameter_namedIn {name : Token} {type : MethodType} {index : Nat} {p : Node}
    (hn : root.HasDeclaration (.method owner n)) (hname : n.nameToken? = some name)
    (htype : context.resolver.methodType? n = some type) (hp : n.parameters[index]? = some p) :
    (Scope.introduceParameter ⟨context, owner, ⟨name.text, type.descriptor⟩⟩ index p).RecordsOnly
      (context.NamedIn root) := by
  have hmem : p ∈ root.descendants := Node.mem_descendants_trans hn.mem_descendants
    (Node.mem_descendants_of_mem_parameters (List.mem_of_getElem? hp))
  unfold Scope.introduceParameter
  refine (Scope.walkPart_namedIn _ hmem _).bind fun _ => ?_
  refine (Scope.recordDeclaredType_namedIn _ hmem).bind fun _ => ?_
  split
  · exact .diagnostic _
  · next t ht =>
    refine (Scan.RecordsOnly.modify _).bind fun _ => ?_
    exact record_namedIn (.parameter hn hname htype hp ht)

/-- The scan of a method records only what the file names. -/
theorem scanMethod_namedIn (hn : root.HasDeclaration (.method owner n)) :
    (context.scanMethod owner n).RecordsOnly (context.NamedIn root) := by
  have hmem : n ∈ root.descendants := hn.mem_descendants
  unfold scanMethod
  split
  · exact warnNameless_recordsOnly _
  · next name hname =>
    split
    · exact .fail _ _
    · next type htype =>
      refine (record_namedIn (.method hn hname htype)).bind fun _ => Scan.RecordsOnly.fresh ?_ _
      refine (Scope.walkPart_namedIn _ hmem _).bind fun _ => ?_
      refine (Scope.walkPart_namedIn _ hmem _).bind fun _ => ?_
      refine (Scope.recordDeclaredType_namedIn _ hmem).bind fun _ => ?_
      refine Scan.RecordsOnly.bind ?_ fun _ => ?_
      · refine .forM _ fun entry hentry => ?_
        have hp := List.mem_zipIdx_iff_getElem?.1 hentry
        exact introduceParameter_namedIn hn hname htype hp
      · refine (Scope.walkPart_namedIn _ hmem _).bind fun _ => ?_
        exact Scope.walkPart_namedIn _ hmem _

/-- The scan of any declaration records only what the file names. -/
theorem scanDeclaration_namedIn {d : Declaration} (hd : root.HasDeclaration d) :
    (context.scanDeclaration d).RecordsOnly (context.NamedIn root) := by
  cases d with
  | classDecl qualifier n =>
    cases hd with
    | classDecl hn => exact scanClass_namedIn hn
  | field owner n => exact scanField_namedIn hd
  | enumConstant owner n => exact scanEnumConstant_namedIn hd
  | method owner n => exact scanMethod_namedIn hd
  | initializer owner n =>
    exact Scan.RecordsOnly.fresh
      (Scope.walk_namedIn ⟨context, owner, .classInitializer⟩ hd.mem_descendants) _

/-- The package is recorded at the reference that names it. -/
theorem recordPackage_namedIn (context : FileContext) (root : Node) :
    (context.recordPackage root).RecordsOnly (context.NamedIn root) := by
  unfold recordPackage
  split
  · split
    · next reference hreference =>
      obtain ⟨statement, hs, hr⟩ := Option.bind_eq_some_iff.1 hreference
      exact .record ⟨.node reference, _, .package hs hr, rfl⟩
    · exact .pure _
  · exact .pure _

/-- Each import is recorded at the reference that names it. -/
theorem recordImports_namedIn (context : FileContext) (root : Node) :
    (context.recordImports root).RecordsOnly (context.NamedIn root) := by
  unfold recordImports
  split
  · refine .forM _ fun statement hs => ?_
    unfold recordImport
    split
    · next reference hr => exact .record ⟨.node reference, _, .imported hs hr, rfl⟩
    · exact .pure _
  · exact .pure _

/-- The scan of a file records only what the file names. -/
theorem scanRoot_namedIn (context : FileContext) (root : Node) :
    (context.scanRoot root).RecordsOnly (context.NamedIn root) := by
  unfold scanRoot
  split
  · exact .fail _ _
  · refine (context.recordPackage_namedIn root).bind fun _ => ?_
    refine (context.recordImports_namedIn root).bind fun _ => ?_
    exact .forM _ fun d hd => scanDeclaration_namedIn (Node.mem_declarations_iff.1 hd)

/-! ### Every declared name is recorded -/

/-- A record is recorded. -/
theorem record_recordsSome {σ : Type} {span : Span} {identity : Identity} :
    (context.record span identity : Scan σ Unit).RecordsSome
      (· = context.recordAt span identity) :=
  .record rfl

/-- A class with a name is recorded under its qualified name. -/
theorem scanClass_recordsSome {qualifier : Option String} {name : Token}
    (hname : n.nameToken? = some name) :
    (context.scanClass qualifier n).RecordsSome
      (· = context.recordAt name.span (.classDecl (qualify qualifier name.text))) := by
  unfold scanClass
  rw [hname]
  exact record_recordsSome.bind_left _

/-- A field with a name is recorded under its class. -/
theorem scanField_recordsSome {name : Token} (hname : n.nameToken? = some name) :
    (context.scanField owner n).RecordsSome
      (· = context.recordAt name.span (.field owner name.text)) := by
  unfold scanField
  rw [hname]
  refine Scan.RecordsSome.fresh ?_ _
  refine .bind_right _ fun _ => .bind_right _ fun _ => ?_
  exact record_recordsSome.bind_left _

/-- An enum constant with a name is recorded as a field of its class. -/
theorem scanEnumConstant_recordsSome {name : Token} (hname : n.nameToken? = some name) :
    (context.scanEnumConstant owner n).RecordsSome
      (· = context.recordAt name.span (.field owner name.text)) := by
  unfold scanEnumConstant
  rw [hname]
  exact record_recordsSome.bind_left _

/-- What the walk through a method with a name and known types records is recorded with it. -/
theorem scanMethod_recordsSome_of_walkMethod {P : Record → Prop} {name : Token}
    (hname : n.nameToken? = some name)
    (h : ∀ type, context.resolver.methodType? n = some type →
      (walkMethod n ⟨context, owner, ⟨name.text, type.descriptor⟩⟩).RecordsSome P) :
    (context.scanMethod owner n).RecordsSome P := by
  unfold scanMethod
  rw [hname]
  dsimp only
  split
  · exact .fail _ _
  · next type htype => exact .bind_right _ fun _ => (h type htype).fresh _

/-- A method with a name and known types is recorded under its class, with its descriptor. -/
theorem scanMethod_recordsSome {name : Token} {type : MethodType}
    (hname : n.nameToken? = some name) (htype : context.resolver.methodType? n = some type) :
    (context.scanMethod owner n).RecordsSome
      (· = context.recordAt name.span (.method owner name.text type.descriptor)) := by
  unfold scanMethod
  rw [hname]
  dsimp only
  rw [htype]
  exact record_recordsSome.bind_left _

/-- What the introduction of a parameter records is recorded for the method. -/
theorem walkMethod_recordsSome_of_parameter {scope : Scope} {P : Record → Prop} {index : Nat}
    {p : Node} (hp : n.parameters[index]? = some p)
    (h : (scope.introduceParameter index p).RecordsSome P) :
    (walkMethod n scope).RecordsSome P := by
  unfold walkMethod
  refine .bind_right _ fun _ => .bind_right _ fun _ => .bind_right _ fun _ => ?_
  refine Scan.RecordsSome.bind_left ?_ _
  have hmem : (p, index) ∈ n.parameters.zipIdx := List.mem_zipIdx_iff_getElem?.2 hp
  exact .forM hmem h

/-- A parameter with a name is recorded with its position. -/
theorem introduceParameter_recordsSome {scope : Scope} {index : Nat} {p : Node} {t : Token}
    (ht : p.nameToken? = some t) :
    (scope.introduceParameter index p).RecordsSome
      (· = scope.recordAt t.span (.parameter (scope.localName t.text (some index)))) := by
  unfold Scope.introduceParameter
  rw [ht]
  refine .bind_right _ fun _ => .bind_right _ fun _ => .bind_right _ fun _ => ?_
  exact record_recordsSome

/-- The scan of a declaration of the file records each name that the file declares. -/
theorem exists_scanDeclaration_recordsSome {t : Token} {identity : Identity}
    (h : root.Declares context.resolver t identity) :
    ∃ d, root.HasDeclaration d ∧
      (context.scanDeclaration d).RecordsSome (· = context.recordAt t.span identity) := by
  cases h with
  | classDecl hc hname => exact ⟨_, .classDecl hc, scanClass_recordsSome hname⟩
  | field hf hname => exact ⟨_, hf, scanField_recordsSome hname⟩
  | enumConstant he hname => exact ⟨_, he, scanEnumConstant_recordsSome hname⟩
  | method hm hname htype => exact ⟨_, hm, scanMethod_recordsSome hname htype⟩
  | parameter hm hname htype hp ht =>
    refine ⟨_, hm, scanMethod_recordsSome_of_walkMethod hname fun type' htype' => ?_⟩
    cases Option.some.inj (htype.symm.trans htype')
    exact walkMethod_recordsSome_of_parameter hp (introduceParameter_recordsSome ht)

/-- What the walk of a part records is recorded for the declaration. -/
theorem walkPart_recordsSome {scope : Scope} {P : Record → Prop} {kind : Kind} {part : Node}
    (hpart : n.child? kind = some part) (h : (scope.walk part).RecordsSome P) :
    (scope.walkPart n kind).RecordsSome P := by
  unfold Scope.walkPart
  rw [hpart]
  exact h

/-- What the walk of a part of a method records is recorded for the method. -/
theorem walkMethod_recordsSome_of_part {scope : Scope} {P : Record → Prop} {kind : Kind}
    {part : Node} (hpart : n.child? kind = some part)
    (hkind : kind ∈ [Kind.modifierList, .typeParameterList, .throwsList, .codeBlock])
    (h : (scope.walk part).RecordsSome P) : (walkMethod n scope).RecordsSome P := by
  have hwalk := walkPart_recordsSome hpart h
  unfold walkMethod
  simp only [List.mem_cons, List.not_mem_nil, or_false] at hkind
  rcases hkind with rfl | rfl | rfl | rfl
  · exact hwalk.bind_left _
  · exact .bind_right _ fun _ => hwalk.bind_left _
  · refine .bind_right _ fun _ => .bind_right _ fun _ => .bind_right _ fun _ => ?_
    exact .bind_right _ fun _ => hwalk.bind_left _
  · refine .bind_right _ fun _ => .bind_right _ fun _ => .bind_right _ fun _ => ?_
    exact .bind_right _ fun _ => .bind_right _ fun _ => hwalk

/-- What the walk of an initializer records is recorded for the field. -/
theorem scanField_recordsSome_of_initializer {P : Record → Prop} {part : Node}
    (hpart : n.initializer? = some part)
    (h : (Scope.walk ⟨context, owner, .outsideMethod⟩ part).RecordsSome P) :
    (context.scanField owner n).RecordsSome P := by
  unfold scanField
  rw [hpart]
  refine Scan.RecordsSome.fresh ?_ _
  refine .bind_right _ fun _ => .bind_right _ fun _ => ?_
  cases n.nameToken? with
  | none => exact .bind_right _ fun _ => h
  | some name => exact .bind_right _ fun _ => h

/-- The scan of a declaration of the file records what each stretch of code of a class does. -/
theorem exists_scanDeclaration_recordsSome_of_codePart {P : Record → Prop} {c part : Node}
    (hc : root.HasNamedClass owner c) (hpart : c.CodePart part)
    (h : ∀ method, (Scope.walk ⟨context, owner, method⟩ part).RecordsSome P) :
    ∃ d, root.HasDeclaration d ∧ (context.scanDeclaration d).RecordsSome P := by
  cases hpart with
  | header hpart =>
    obtain ⟨qualifier, name, hclass, hname, rfl⟩ := hc
    refine ⟨_, .classDecl hclass, ?_⟩
    show (context.scanClass qualifier c).RecordsSome P
    unfold scanClass
    rw [hname]
    exact .bind_right _ fun _ => Scan.RecordsSome.fresh (.forM hpart (h _)) _
  | fieldModifiers hf hpart =>
    have hmodifiers := walkPart_recordsSome hpart (h .outsideMethod)
    exact ⟨_, .field hc hf, (hmodifiers.bind_left _).fresh _⟩
  | fieldInitializer hf hpart =>
    exact ⟨_, .field hc hf, scanField_recordsSome_of_initializer hpart (h _)⟩
  | @enumConstant e _ he hname hpart =>
    obtain ⟨name, hname⟩ := Option.isSome_iff_exists.1 hname
    refine ⟨_, .enumConstant hc he, ?_⟩
    show (context.scanEnumConstant owner e).RecordsSome P
    unfold scanEnumConstant
    rw [hname]
    exact .bind_right _ fun _ => Scan.RecordsSome.fresh (.forM hpart (h _)) _
  | classInitializer hpart => exact ⟨_, .initializer hc hpart, (h .classInitializer).fresh _⟩
  | method hm hname hkind hpart =>
    obtain ⟨name, hname⟩ := Option.isSome_iff_exists.1 hname
    refine ⟨_, .method hc hm, scanMethod_recordsSome_of_walkMethod hname fun type _ => ?_⟩
    exact walkMethod_recordsSome_of_part hpart hkind (h _)
  | parameterModifiers hm hname hp hpart =>
    obtain ⟨name, hname⟩ := Option.isSome_iff_exists.1 hname
    obtain ⟨index, hindex⟩ := List.mem_iff_getElem?.1 hp
    refine ⟨_, .method hc hm, scanMethod_recordsSome_of_walkMethod hname fun type _ => ?_⟩
    refine walkMethod_recordsSome_of_parameter hindex ?_
    exact (walkPart_recordsSome hpart (h _)).bind_left _

/-- The scan of a file records what the scan of each of its declarations does. -/
theorem scanRoot_recordsSome {P : Record → Prop}
    (h : ∃ d, root.HasDeclaration d ∧ (context.scanDeclaration d).RecordsSome P) :
    (context.scanRoot root).RecordsSome P := by
  obtain ⟨d, hd, hscan⟩ := h
  unfold scanRoot
  split
  · exact .fail _ _
  · refine .bind_right _ fun _ => .bind_right _ fun _ => ?_
    exact .forM (Node.mem_declarations_iff.2 hd) hscan

end FileContext

/-! ### Offsets in the text of the file -/

/-- The span of an item starts where the item does. -/
theorem Item.span_start (x : Item) : x.span.start = x.start := by
  cases x <;> rfl

/-- A record at the place of an element of a file covers the element. -/
theorem FileContext.recordAt_covers (file : String) (resolver : Resolver) (options : Options)
    {root : Node} (hroot : root.start = 0) {x : Item} (hx : x ∈ root.preorder)
    (identity : Identity) :
    ((FileContext.ofText file root.text resolver options).recordAt x.span identity).Covers
      options.encoding root x := by
  obtain ⟨before, after, htext, hspan⟩ := Node.exists_text_split hx
  rw [hroot, Nat.zero_add] at hspan
  have hstart : x.span.start = before.utf8ByteSize := congrArg Span.start hspan
  have hstop : x.span.stop = (before ++ x.text).utf8ByteSize := by
    rw [String.utf8ByteSize_append]
    exact congrArg Span.stop hspan
  refine ⟨before, after, htext, hstart.symm.trans x.span_start, ?_, ?_⟩
  · show _ = (OffsetMap.ofText root.text options.encoding).offset x.span.start
    rw [hstart, htext, String.append_assoc, OffsetMap.offset_ofText_append]
  · show _ = (OffsetMap.ofText root.text options.encoding).offset x.span.stop
    rw [hstop, htext, OffsetMap.offset_ofText_append]

/-- Every record of a file that succeeds covers an identifier of its text, in the unit of the
extraction, and the identifier names the symbol of the record. Every name that a class, a member or
a parameter is declared by is covered by a record under this name, which for a class follows the
package or class around it, and so is every name that a local variable is declared by. -/
theorem extract_records_cover_identifiers (file : String) (tree : Tree) (resolver : Resolver)
    (options : Options) (h : (extract file tree resolver options).result = .ok ()) :
    (∀ r ∈ (extract file tree resolver options).records, ∃ x ∈ tree.root.preorder,
      tree.root.IsIdentifier x ∧ r.Covers options.encoding tree.root x ∧
      tree.root.Names resolver x r.identity) ∧
    (∀ t identity, tree.root.Declares resolver t identity →
      ∃ r ∈ (extract file tree resolver options).records,
        r.Covers options.encoding tree.root (.token t) ∧ r.identity = identity) ∧
    (∀ owner t, tree.root.DeclaresVariable owner t →
      ∃ r ∈ (extract file tree resolver options).records,
        r.Covers options.encoding tree.root (.token t) ∧
        ∃ method index, r.identity = .localVariable ⟨owner, method, t.text, some index⟩) := by
  let context := FileContext.ofText file tree.root.text resolver options
  obtain ⟨hresult, hrecords⟩ := records_extract_of_ok h
  have hcovers {x : Item} (hx : x ∈ tree.root.preorder) (identity : Identity) :
      (context.recordAt x.span identity).Covers options.encoding tree.root x :=
    FileContext.recordAt_covers file resolver options rfl hx identity
  have hsome {P : Record → Prop}
      (hscan : ∃ d, tree.root.HasDeclaration d ∧ (context.scanDeclaration d).RecordsSome P) :
      ∃ r ∈ Journal.records ((context.scanRoot tree.root).run ()).journal, P r :=
    FileContext.scanRoot_recordsSome hscan () () hresult
  rw [hrecords]
  refine ⟨?_, ?_, ?_⟩
  · intro r hr
    obtain ⟨x, identity, hnames, rfl⟩ := context.scanRoot_namedIn tree.root () r hr
    obtain ⟨hx, hidentifier⟩ := hnames.isIdentifier
    exact ⟨x, hx, hidentifier, hcovers hx identity, hnames⟩
  · intro t identity ht
    obtain ⟨r, hr, rfl⟩ := hsome (FileContext.exists_scanDeclaration_recordsSome ht)
    exact ⟨_, hr, hcovers ht.ident_below.1 identity, rfl⟩
  · rintro owner t ⟨c, part, d, hc, hpart, hd, ht⟩
    -- the code may be walked for a method or outside of one; which it is, is left open
    have hwalk (method : MethodLabel) :
        (Scope.walk ⟨context, owner, method⟩ part).RecordsSome fun r => ∃ method index,
          r = context.recordAt t.span (.localVariable ⟨owner, method, t.text, some index⟩) :=
      (Scope.walk_recordsSome_variable hd ht).mono fun r ⟨index, hr⟩ => ⟨method, index, hr⟩
    have hbelow : d ∈ tree.root.descendants :=
      Node.mem_descendants_trans (hc.codePart_mem_descendants hpart) hd
    obtain ⟨r, hr, method, index, rfl⟩ :=
      hsome (FileContext.exists_scanDeclaration_recordsSome_of_codePart hc hpart hwalk)
    exact ⟨_, hr, hcovers (Node.ident_below_of_mem_variableNames hbelow ht).1 _, method, index,
      rfl⟩

/-- A file whose first comment has characters of two and of four bytes. -/
def accentedTree : Tree :=
  ⟨⟨0⟩, .sourceFile,
    [.token .lineComment "// é😀", .token .whitespace "\n",
      .node .classDecl
        [.token .classKw "class", .token .whitespace " ", .token .ident "A",
          .node .field [.token .intKw "int", .token .whitespace " ", .token .ident "x"]]]⟩

/-- The field of the accented file is recorded where its name stands: seventeen characters stand
before it, which are eighteen UTF-16 units and twenty-one bytes. -/
theorem extract_records_cover_identifiers_accented :
    let records (encoding : Encoding) :=
      (extract "A.java" accentedTree Bindings.empty.resolver { encoding := encoding }).records
    (⟨"A.java", 17, 18, .field "A" "x"⟩ ∈ records .char ∧
      ∃ x ∈ accentedTree.root.preorder, accentedTree.root.IsIdentifier x ∧
        Record.Covers ⟨"A.java", 17, 18, .field "A" "x"⟩ .char accentedTree.root x) ∧
    (⟨"A.java", 18, 19, .field "A" "x"⟩ ∈ records .utf16 ∧
      ∃ x ∈ accentedTree.root.preorder, accentedTree.root.IsIdentifier x ∧
        Record.Covers ⟨"A.java", 18, 19, .field "A" "x"⟩ .utf16 accentedTree.root x) ∧
    ⟨"A.java", 21, 22, .field "A" "x"⟩ ∈ records .utf8 ∧
      ∃ x ∈ accentedTree.root.preorder, accentedTree.root.IsIdentifier x ∧
        Record.Covers ⟨"A.java", 21, 22, .field "A" "x"⟩ .utf8 accentedTree.root x := by
  intro records
  have hcovered (encoding : Encoding) (r : Record)
      (hok : (extract "A.java" accentedTree Bindings.empty.resolver
        { encoding := encoding }).result = .ok ()) (hmem : r ∈ records encoding) :
      r ∈ records encoding ∧ ∃ x ∈ accentedTree.root.preorder,
        accentedTree.root.IsIdentifier x ∧ r.Covers encoding accentedTree.root x := by
    obtain ⟨x, hx, hidentifier, hcovers, -⟩ := (extract_records_cover_identifiers "A.java"
      accentedTree Bindings.empty.resolver { encoding := encoding } hok).1 r hmem
    exact ⟨hmem, x, hx, hidentifier, hcovers⟩
  refine ⟨hcovered .char _ ?_ ?_, hcovered .utf16 _ ?_ ?_, hcovered .utf8 _ ?_ ?_⟩
  all_goals decide +kernel

end SymbolRanges

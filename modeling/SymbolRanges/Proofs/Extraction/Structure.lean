import SymbolRanges.Proofs.Extraction.Territory

/-!
# Every declaration is recorded once

The records of a file are those of the names that it declares and others, which stand in its code or
in its head. A declared name stands apart from those, so no record but its own has its range:
`FileContext.recordsAt_of_declared`.

`extract_records_declarations_once` is the result. For each class that is reached through classes
with names, it gives the one record at the name of the class, of each of its fields, enum constants
and methods, and of the parameters of the methods. Each element without a name has a warning
instead, and a class, an enum constant or a method without a name is silent below.
-/

set_option autoImplicit false

namespace SymbolRanges

namespace FileContext

/-! ### Records apart -/

variable {context : FileContext} {root : Node}

/-- What is recorded in code is recorded at a token of the code. -/
theorem RecordedIn.exists_token {part : Node} {r : Record} (h : context.RecordedIn part r) :
    ∃ m ∈ part.descendants, ∃ t ∈ m.childTokens, ∃ identity,
      r = context.recordAt t.span identity := by
  obtain ⟨t, identity, hnames, rfl⟩ := h
  cases hnames with
  | reference hr _ hname _ _ =>
    have hmem := (List.mem_filter.1 (List.mem_of_getLast? hname)).1
    exact ⟨_, hr, t, hmem, identity, rfl⟩
  | declaration hd hname _ _ =>
    obtain ⟨v, hv, hname⟩ := List.mem_filterMap.1 hname
    have hmem := Node.mem_descendants_of_mem_variableNodes hd hv
    exact ⟨v, hmem, t, (Node.mem_childTokens_of_nameToken? hname).1, _, rfl⟩

/-- A record of a file that is not the record of a declared name stands at an element whose tokens
belong to the code or to the head of the file. -/
theorem exists_item_of_written {r : Record}
    (h : context.WrittenInHead root (.record r) ∨
      ∃ d ∈ root.declarations, context.WrittenInSome d.code (.record r)) :
    ∃ x ∈ root.preorder, (∃ identity, r = context.recordAt x.span identity) ∧
      ∀ u ∈ x.tokens, u ∈ root.codeTokens ++ root.headTokens := by
  obtain ⟨statement, hs, reference, identity, hr, heq⟩ | ⟨d, hd, part, hpart, hrecorded⟩ := h
  · cases heq
    have hchild : statement ∈ root.childNodes := by
      rcases List.mem_append.1 hs with hpackage | himport
      · exact Node.mem_childNodes_of_child? (Option.mem_toList.1 hpackage)
      · exact Node.mem_childNodes_of_mem_childrenOfKind himport
    have hbelow := Node.mem_descendants_of_mem_childNodes (Node.mem_childNodes_of_child? hr)
    refine ⟨.node reference, Node.child_below hchild hr, ⟨identity, rfl⟩, fun u hu => ?_⟩
    obtain ⟨m, hm, hmem⟩ := List.mem_flatMap.1 (reference.perm_tokens.mem_iff.1 hu)
    exact List.mem_append_right _
      (Node.mem_tokensBelow hs (Node.mem_descendants_trans hbelow hm) hmem)
  · obtain ⟨m, hm, t, ht, identity, rfl⟩ := RecordedIn.exists_token hrecorded
    have hcode : t ∈ root.codeTokens :=
      List.mem_flatMap.2 ⟨d, hd, Node.mem_tokensBelow hpart hm ht⟩
    have hbelow : Item.token t ∈ root.preorder :=
      Node.mem_tokens.1 ((context.tokens_subperm root).subset (by simp [hcode]))
    refine ⟨.token t, hbelow, ⟨identity, rfl⟩, fun u hu => ?_⟩
    rw [List.mem_singleton.1 hu]
    exact List.mem_append_left _ hcode

/-- The records of a file that is scanned to the end: those of its declared names, and others that
stand at elements of its code or of its head. -/
theorem exists_records_perm (h : ((context.scanRoot root).run ()).result = .ok ()) :
    ∃ others : List Record,
      (Journal.records ((context.scanRoot root).run ()).journal).Perm
        ((context.fileNames root).map (fun v => context.recordAt v.1.span v.2) ++ others) ∧
      ∀ r ∈ others, ∃ x ∈ root.preorder, (∃ identity, r = context.recordAt x.span identity) ∧
        ∀ u ∈ x.tokens, u ∈ root.codeTokens ++ root.headTokens := by
  obtain ⟨others, hperm, hothers⟩ := context.scanRoot_yields root () () h
  have hrecords := hperm.filterMap Entry.record?
  rw [Journal.filterMap_record?_naming, List.filterMap_append,
    NameSlot.filterMap_record?_entry] at hrecords
  refine ⟨_, hrecords, fun r hr => ?_⟩
  obtain ⟨entry, hentry, hrecord⟩ := List.mem_filterMap.1 hr
  cases entry with
  | record r' =>
    cases hrecord
    exact exists_item_of_written (hothers _ hentry)
  | diagnostic d => cases hrecord
  | note event => cases hrecord

/-- The warnings about missing names of a file that is scanned to the end: one for each slot without
a name, and others about variables in its code. -/
theorem exists_warnings_perm (h : ((context.scanRoot root).run ()).result = .ok ()) :
    ∃ others : List Diagnostic,
      ((Journal.diagnostics ((context.scanRoot root).run ()).journal).filter
        fun d => decide (d.code = .missingName)).Perm
          (((context.fileSlots root).filter NameSlot.isNameless).map NameSlot.warning ++ others) ∧
      ∀ w ∈ others, ∃ d ∈ root.declarations, context.WrittenInSome d.code (.diagnostic w) := by
  obtain ⟨others, hperm, hothers⟩ := context.scanRoot_yields root () () h
  have hdiagnostics := hperm.filterMap Entry.diagnostic?
  rw [Journal.filterMap_diagnostic?_naming, List.filterMap_append,
    NameSlot.filterMap_diagnostic?_entry] at hdiagnostics
  refine ⟨_, hdiagnostics, fun w hw => ?_⟩
  obtain ⟨entry, hentry, hdiagnostic⟩ := List.mem_filterMap.1 hw
  cases entry with
  | diagnostic d =>
    cases hdiagnostic
    obtain ⟨statement, -, reference, identity, -, heq⟩ | hcode := hothers _ hentry
    · cases heq
    · exact hcode
  | record r => cases hdiagnostic
  | note event => cases hdiagnostic

end FileContext

/-- The range of a record. -/
def Record.range (r : Record) : Nat × Nat := (r.start, r.stop)

/-- The records with the range of a token. -/
def FileContext.recordsAt (context : FileContext) (records : List Record) (t : Token) :
    List Record :=
  records.filter fun r => decide (r.range = context.offsets.range t.span)

namespace FileContext

variable {context : FileContext} {root : Node} {t : Token} (hroot : root.start = 0)
  (hoffsets : ∃ encoding, context.offsets = OffsetMap.ofText root.text encoding)
  (ht : Item.token t ∈ root.preorder) (hne : t.text ≠ "")

include hroot hoffsets ht hne

/-- No record at elements apart from a token with a text has the range of the token. -/
theorem recordsAt_eq_nil {records : List Record}
    (h : ∀ r ∈ records, ∃ x ∈ root.preorder, (∃ identity, r = context.recordAt x.span identity) ∧
      ∀ u ∈ x.tokens, u.Apart t) : context.recordsAt records t = [] := by
  obtain ⟨encoding, hencoding⟩ := hoffsets
  unfold recordsAt
  rw [List.filter_eq_nil_iff]
  intro r hr hrange
  obtain ⟨x, hx, ⟨identity, rfl⟩, hapart⟩ := h r hr
  have hdiffers := Node.range_ne_of_apart hroot encoding hx ht hne hapart
  rw [← hencoding] at hdiffers
  exact hdiffers (of_decide_eq_true hrange)

/-- Of names that stand apart, only the one at a token is recorded with its range. -/
theorem recordsAt_names {names : List (Token × Identity)} {identity : Identity}
    (hnames : (names.map Prod.fst).Pairwise Token.Apart)
    (hbelow : ∀ v ∈ names, Item.token v.1 ∈ root.preorder) (hmem : (t, identity) ∈ names) :
    context.recordsAt (names.map fun v => context.recordAt v.1.span v.2) t =
      [context.recordAt t.span identity] := by
  -- what is before the name and what is after it stand apart from it
  obtain ⟨before, after, rfl⟩ := List.append_of_mem hmem
  rw [List.map_append, List.map_cons, List.pairwise_append, List.pairwise_cons] at hnames
  obtain ⟨-, ⟨hafter, -⟩, hbefore⟩ := hnames
  have hnil (part : List (Token × Identity))
      (hpart : ∀ v ∈ part, v ∈ before ++ (t, identity) :: after)
      (hapart : ∀ v ∈ part, v.1.Apart t) :
      context.recordsAt (part.map fun v => context.recordAt v.1.span v.2) t = [] := by
    refine recordsAt_eq_nil hroot hoffsets ht hne fun r hr => ?_
    obtain ⟨v, hv, rfl⟩ := List.mem_map.1 hr
    refine ⟨.token v.1, hbelow v (hpart v hv), ⟨v.2, rfl⟩, fun u hu => ?_⟩
    rw [List.mem_singleton.1 hu]
    exact hapart v hv
  have hfirst := hnil before (fun v hv => List.mem_append_left _ hv) fun v hv =>
    hbefore v.1 (List.mem_map_of_mem hv) t List.mem_cons_self
  have hlast := hnil after (fun v hv => by simp [hv]) fun v hv =>
    (hafter v.1 (List.mem_map_of_mem hv)).symm
  have hself : (context.recordAt t.span identity).range = context.offsets.range t.span := rfl
  unfold recordsAt at hfirst hlast ⊢
  rw [List.map_append, List.map_cons, List.filter_append, hfirst, List.nil_append,
    List.filter_cons, if_pos (decide_eq_true hself), hlast]

end FileContext

/-! ### One record for each name, and none below what is hidden -/

namespace FileContext

variable {context : FileContext} {root : Node} {t : Token} (hroot : root.start = 0)
  (hoffsets : ∃ encoding, context.offsets = OffsetMap.ofText root.text encoding)
  (h : ((context.scanRoot root).run ()).result = .ok ()) (hne : t.text ≠ "")

include hroot hoffsets h hne

/-- The one record at a declared name is that of what it declares. -/
theorem recordsAt_of_declared {identity : Identity}
    (ht : (t, identity) ∈ context.fileNames root) :
    context.recordsAt (Journal.records ((context.scanRoot root).run ()).journal) t =
      [context.recordAt t.span identity] := by
  obtain ⟨hnames, -, hcross⟩ := List.pairwise_append.1 (context.pairwise_apart root)
  have hbelow : ∀ v ∈ context.fileNames root, Item.token v.1 ∈ root.preorder := fun v hv =>
    Node.mem_tokens.1
      ((context.tokens_subperm root).subset (List.mem_append_left _ (List.mem_map_of_mem hv)))
  obtain ⟨others, hperm, hothers⟩ := exists_records_perm h
  have hown := recordsAt_names hroot hoffsets (hbelow _ ht) hne hnames hbelow ht
  -- the other records stand in code or in the head, apart from every declared name
  have hnone : context.recordsAt others t = [] := by
    refine recordsAt_eq_nil hroot hoffsets (hbelow _ ht) hne fun r hr => ?_
    obtain ⟨x, hx, hrecord, htokens⟩ := hothers r hr
    refine ⟨x, hx, hrecord, fun u hu => (hcross t (List.mem_map_of_mem ht) u ?_).symm⟩
    have hmem := htokens u hu
    simp only [List.mem_append] at hmem ⊢
    tauto
  have hfilter := hperm.filter fun r => decide (r.range = context.offsets.range t.span)
  unfold recordsAt at hown hnone ⊢
  rw [List.filter_append, hown, hnone, List.append_nil] at hfilter
  exact List.perm_singleton.1 hfilter

/-- There is no record at a token that is passed over because a declaration has no name. -/
theorem recordsAt_of_hidden (ht : t ∈ root.hiddenTokens) :
    context.recordsAt (Journal.records ((context.scanRoot root).run ()).journal) t = [] := by
  have hbelow {u : Token} (hu : u ∈ (context.fileNames root).map Prod.fst ++
      (root.codeTokens ++ (root.hiddenTokens ++ root.headTokens))) : Item.token u ∈ root.preorder :=
    Node.mem_tokens.1 ((context.tokens_subperm root).subset hu)
  obtain ⟨-, hrest, hcross⟩ := List.pairwise_append.1 (context.pairwise_apart root)
  obtain ⟨-, hrest', hcode⟩ := List.pairwise_append.1 hrest
  obtain ⟨-, -, hhead⟩ := List.pairwise_append.1 hrest'
  obtain ⟨others, hperm, hothers⟩ := exists_records_perm h
  refine recordsAt_eq_nil hroot hoffsets (hbelow (by simp [ht])) hne fun r hr => ?_
  rcases List.mem_append.1 (hperm.mem_iff.1 hr) with hown | hother
  · obtain ⟨v, hv, rfl⟩ := List.mem_map.1 hown
    have hname : v.1 ∈ (context.fileNames root).map Prod.fst := List.mem_map_of_mem hv
    refine ⟨.token v.1, hbelow (List.mem_append_left _ hname), ⟨v.2, rfl⟩, fun u hu => ?_⟩
    rw [List.mem_singleton.1 hu]
    exact hcross v.1 hname t (by simp [ht])
  · obtain ⟨x, hx, hrecord, htokens⟩ := hothers r hother
    refine ⟨x, hx, hrecord, fun u hu => ?_⟩
    rcases List.mem_append.1 (htokens u hu) with hu | hu
    · exact hcode u hu t (by simp [ht])
    · exact (hhead t ht u hu).symm

end FileContext

/-! ### The classes of a file by their path -/

/-- The classes that are reached from a file through classes with names, each with the names on the
way to it and its own. -/
inductive Node.ClassPath (root : Node) : List Token → Node → Prop
  | outermost {c : Node} {name : Token} (hc : c ∈ root.childrenOfKind .classDecl)
    (hname : c.nameToken? = some name) : ClassPath root [name] c
  | nested {path : List Token} {outer c : Node} {name : Token} (houter : ClassPath root path outer)
    (hc : c ∈ outer.childrenOfKind .classDecl) (hname : c.nameToken? = some name) :
    ClassPath root (path ++ [name]) c

/-- The name of a class: the package, unless it is the default one, and the names on the way to the
class, with dots between them. -/
def Node.qualifiedName (root : Node) (path : List Token) : String :=
  ".".intercalate
    ((if root.packageName = "" then [] else [root.packageName]) ++ path.map Token.text)

namespace Node

variable {root : Node}

/-- There is at least one name on the way to a class. -/
theorem ClassPath.ne_nil {path : List Token} {c : Node} (h : root.ClassPath path c) :
    path ≠ [] := by
  cases h <;> simp

/-- A class on a path is scanned under its qualified name. -/
theorem ClassPath.hasNamedClass {path : List Token} {c : Node} (h : root.ClassPath path c) :
    root.HasNamedClass (root.qualifiedName path) c := by
  induction h with
  | @outermost c name hc hname =>
    refine ⟨_, name, .outermost hc, hname, ?_⟩
    by_cases hpackage : root.packageName = ""
    · simp [packageQualifier, qualifiedName, qualify, hpackage]
    · simp [packageQualifier, qualifiedName, qualify, hpackage]
  | @nested path outer c name houter hc hname ih =>
    obtain ⟨qualifier, outerName, hclass, houterName, howner⟩ := ih
    refine ⟨_, name, .nested hclass houterName hc, hname, ?_⟩
    have hne : (if root.packageName = "" then [] else [root.packageName]) ++ path.map Token.text ≠
        [] := by
      simp [houter.ne_nil]
    rw [howner]
    unfold qualifiedName qualify
    rw [List.map_append, ← List.append_assoc, String.intercalate_append_of_ne_nil hne (by simp)]
    simp

end Node

namespace FileContext

variable {context : FileContext} {root : Node}

/-- What a file declares is among its names. -/
theorem mem_fileNames {t : Token} {identity : Identity}
    (h : root.Declares context.resolver t identity) : (t, identity) ∈ context.fileNames root := by
  have hslot (slot : NameSlot) {d : Declaration} (hd : root.HasDeclaration d)
      (hslot : slot ∈ context.slots d) (hname : slot.node.nameToken? = some t) :
      (t, slot.identity t.text) ∈ context.fileNames root := by
    have hmem : slot ∈ context.fileSlots root :=
      List.mem_flatMap.2 ⟨d, Node.mem_declarations_iff.2 hd, hslot⟩
    refine List.mem_filterMap.2 ⟨slot, hmem, ?_⟩
    simp [NameSlot.declared?, hname]
  have hsignature {m : Node} {type : MethodType}
      (htype : context.resolver.methodType? m = some type) :
      context.signature m = type.descriptor := by
    simp [signature, htype]
  cases h with
  | classDecl hc hname => exact hslot _ (.classDecl hc) (List.mem_singleton_self _) hname
  | field hf hname => exact hslot _ hf (List.mem_singleton_self _) hname
  | enumConstant he hname => exact hslot _ he (List.mem_singleton_self _) hname
  | method hm hname htype =>
    rw [← hsignature htype]
    exact hslot _ hm List.mem_cons_self hname
  | @parameter owner m p name _ type index hm hname htype hp ht =>
    rw [← hsignature htype]
    have hmem : (p, index) ∈ m.parameters.zipIdx := List.mem_zipIdx_iff_getElem?.2 hp
    refine hslot (Scope.parameterSlot ⟨context, owner, ⟨name.text, context.signature m⟩⟩ index p)
      hm (List.mem_cons_of_mem _ ?_) ht
    rw [hname, Option.toList_some, List.flatMap_singleton]
    exact List.mem_map_of_mem hmem

/-- In a file that is scanned to the end the types of every method with a name are known. -/
theorem exists_methodType {owner : String} {m : Node} {name : Token}
    (h : ((context.scanRoot root).run ()).result = .ok ())
    (hm : root.HasDeclaration (.method owner m)) (hname : m.nameToken? = some name) :
    ∃ type, context.resolver.methodType? m = some type := by
  have hscan : (context.scanMethod owner m).RecordsSome fun _ =>
      ∃ type, context.resolver.methodType? m = some type := by
    cases htype : context.resolver.methodType? m with
    | none =>
      unfold scanMethod
      rw [hname]
      dsimp only
      rw [htype]
      exact .fail _ _
    | some type => exact (scanMethod_recordsSome hname htype).mono fun _ _ => ⟨type, rfl⟩
  obtain ⟨-, -, htype⟩ := scanRoot_recordsSome ⟨.method owner m, hm, hscan⟩ () () h
  exact htype

end FileContext

/-! ### The result -/

/-- Let a file without empty identifiers be extracted successfully, and let a class be reached in it
through classes with names. Then the one record at the name of the class is that of the class under
its qualified name. The one record at the name of each of its fields and enum constants is that of
the field, at the name of each of its methods that of the method with its descriptor, and at the
name of each parameter of such a method that of the parameter with its position. Each of these
elements without a name has one warning at its start, and so has a class without a name; the only
other warnings of this kind are about variables in code. Nothing is recorded below a class, an enum
constant or a method without a name. -/
theorem extract_records_declarations_once (file : String) (tree : Tree) (resolver : Resolver)
    (options : Options) (hok : (extract file tree resolver options).result = .ok ())
    (hne : ∀ t, Item.token t ∈ tree.root.preorder → t.kind = .ident → t.text ≠ "") :
    let root := tree.root
    let e := extract file tree resolver options
    let context := FileContext.ofText file root.text resolver options
    (∀ path c, root.ClassPath path c →
      (∀ name, c.nameToken? = some name → context.recordsAt e.records name =
        [context.recordAt name.span (.classDecl (root.qualifiedName path))]) ∧
      (∀ f ∈ c.childrenOfKind .field ++ c.childrenOfKind .enumConstant, ∀ name,
        f.nameToken? = some name → context.recordsAt e.records name =
          [context.recordAt name.span (.field (root.qualifiedName path) name.text)]) ∧
      ∀ m ∈ c.childrenOfKind .method, ∀ name, m.nameToken? = some name →
        ∃ type, resolver.methodType? m = some type ∧
          context.recordsAt e.records name = [context.recordAt name.span
            (.method (root.qualifiedName path) name.text type.descriptor)] ∧
          ∀ index p t, m.parameters[index]? = some p → p.nameToken? = some t →
            context.recordsAt e.records t = [context.recordAt t.span (.parameter
              ⟨root.qualifiedName path, ⟨name.text, type.descriptor⟩, t.text, some index⟩)]) ∧
    (∀ slot, slot ∈ context.fileSlots root ↔ ∃ d, root.HasDeclaration d ∧ slot ∈ context.slots d) ∧
    (∃ locals : List Diagnostic,
      (e.diagnostics.filter fun d => decide (d.code = .missingName)).Perm
        (((context.fileSlots root).filter NameSlot.isNameless).map NameSlot.warning ++ locals) ∧
      ∀ w ∈ locals, ∃ d, root.HasDeclaration d ∧
        context.WrittenInSome d.code (.diagnostic w)) ∧
    ∀ d, root.HasDeclaration d → ∀ n ∈ d.hidden, ∀ t, Item.token t ∈ n.preorder → t.text ≠ "" →
      context.recordsAt e.records t = [] := by
  intro root e context
  obtain ⟨hresult, hrecords⟩ := records_extract_of_ok hok
  have hdiagnostics : e.diagnostics =
      Journal.diagnostics ((context.scanRoot root).run ()).journal :=
    ExtractedFile.diagnostics_ofOutcome file _
  have hoffsets : ∃ encoding, context.offsets = OffsetMap.ofText root.text encoding :=
    ⟨options.encoding, rfl⟩
  -- what is declared by name is recorded at the name, since names have different ranges
  have hdeclared {t : Token} {identity : Identity} (h : root.Declares resolver t identity) :
      context.recordsAt e.records t = [context.recordAt t.span identity] := by
    obtain ⟨hmem, hkind⟩ := h.ident_below
    rw [hrecords]
    exact FileContext.recordsAt_of_declared rfl hoffsets hresult (hne t hmem hkind)
      (FileContext.mem_fileNames h)
  refine ⟨fun path c hpath => ?_, fun slot => ?_, ?_, ?_⟩
  · have hc := hpath.hasNamedClass
    refine ⟨fun name hname => ?_, fun f hf name hname => ?_, fun m hm name hname => ?_⟩
    · obtain ⟨qualifier, name', hclass, hname', howner⟩ := hc
      cases Option.some.inj (hname.symm.trans hname')
      rw [← howner]
      exact hdeclared (.classDecl hclass hname)
    · rcases List.mem_append.1 hf with hf | hf
      · exact hdeclared (.field (.field hc hf) hname)
      · exact hdeclared (.enumConstant (.enumConstant hc hf) hname)
    · have hmethod : root.HasDeclaration (.method (root.qualifiedName path) m) := .method hc hm
      obtain ⟨type, htype⟩ := FileContext.exists_methodType hresult hmethod hname
      refine ⟨type, htype, hdeclared (.method hmethod hname htype), fun index p t hp ht => ?_⟩
      exact hdeclared (.parameter hmethod hname htype hp ht)
  · unfold FileContext.fileSlots
    simp only [List.mem_flatMap, Node.mem_declarations_iff]
  · obtain ⟨others, hperm, hothers⟩ := FileContext.exists_warnings_perm hresult
    rw [hdiagnostics]
    refine ⟨others, hperm, fun w hw => ?_⟩
    obtain ⟨d, hd, hwritten⟩ := hothers w hw
    exact ⟨d, Node.mem_declarations_iff.1 hd, hwritten⟩
  · intro d hd n hn t ht htext
    -- a token in hidden code is no token of a declared name or of code that is walked
    have hhidden : t ∈ root.hiddenTokens := by
      obtain ⟨m, hm, hmem⟩ := List.mem_flatMap.1 (n.perm_tokens.mem_iff.1 (Node.mem_tokens.2 ht))
      exact List.mem_flatMap.2 ⟨d, Node.mem_declarations_iff.2 hd,
        Node.mem_tokensBelow hn hm hmem⟩
    rw [hrecords]
    exact FileContext.recordsAt_of_hidden rfl hoffsets hresult htext hhidden

/-- The class `B`, which stands in the class `A`: a field, a method whose first parameter has no
name, and a class without a name around a field. -/
def nestedClass : Node :=
  ⟨⟨0⟩, 11, .classDecl,
    [.token .ident "B", .node .field [.token .ident "x"],
      .node .method
        [.token .ident "m",
          .node .parameterList
            [.node .parameter [.token .intKw "int"], .node .parameter [.token .ident "a"]]],
      .node .classDecl [.node .field [.token .ident "y"]]]⟩

/-- A file of the package `p` with the class `B` in the class `A`. -/
def nestedTree : Tree :=
  ⟨⟨0⟩, .sourceFile,
    [.node .packageStatement
      [.token .packageKw "package", .token .whitespace " ",
        .node .reference [.token .ident "p"], .token .semicolon ";"],
      .node .classDecl [.token .ident "A", .node .classDecl nestedClass.children]]⟩

/-- The types of the method `m`. -/
def nestedBindings : Bindings :=
  Bindings.empty.insertMethod (.ofSize 13 1) ⟨[.primitive .int, .primitive .int], .primitive .void⟩

/-- The names in the file have one record each, with the package and both classes in the owner; the
field of the class without a name has none. -/
theorem extract_records_declarations_once_nested :
    let e := extract "A.java" nestedTree nestedBindings.resolver {}
    let recordsAt := fun start => e.records.filter fun r => decide (r.range = (start, start + 1))
    e.result = .ok () ∧
    recordsAt 11 = [⟨"A.java", 11, 12, .classDecl "p.A.B"⟩] ∧
    recordsAt 12 = [⟨"A.java", 12, 13, .field "p.A.B" "x"⟩] ∧
    recordsAt 13 = [⟨"A.java", 13, 14, .method "p.A.B" "m" "(II)V"⟩] ∧
    recordsAt 17 = [⟨"A.java", 17, 18, .parameter ⟨"p.A.B", ⟨"m", "(II)V"⟩, "a", some 1⟩⟩] ∧
    recordsAt 18 = [] := by
  intro e recordsAt
  have hok : e.result = .ok () := by decide +kernel
  have hne : ∀ t, Item.token t ∈ nestedTree.root.preorder → t.kind = .ident → t.text ≠ "" := by
    intro t ht
    have hall : ∀ u ∈ nestedTree.root.tokens, u.kind = .ident → u.text ≠ "" := by decide +kernel
    exact hall t (Node.mem_tokens.2 ht)
  let outer : Node :=
    ⟨⟨0⟩, 10, .classDecl, [.token .ident "A", .node .classDecl nestedClass.children]⟩
  let nameless : Node := ⟨⟨0⟩, 18, .classDecl, [.node .field [.token .ident "y"]]⟩
  have houter : outer ∈ nestedTree.root.childrenOfKind .classDecl := List.mem_singleton_self _
  have hinner : nestedClass ∈ outer.childrenOfKind .classDecl := List.mem_singleton_self _
  have hpath : nestedTree.root.ClassPath [⟨10, .ident, "A"⟩, ⟨11, .ident, "B"⟩] nestedClass :=
    .nested (.outermost houter rfl) hinner rfl
  have hnameless : nestedTree.root.HasDeclaration (.classDecl (some "p.A.B") nameless) :=
    .classDecl (.nested (.nested (.outermost houter) rfl hinner) rfl (List.mem_singleton_self _))
  obtain ⟨hclasses, -, -, hhidden⟩ := extract_records_declarations_once "A.java" nestedTree
    nestedBindings.resolver {} hok hne
  obtain ⟨hclass, hfields, hmethods⟩ := hclasses _ _ hpath
  obtain ⟨type, htype, hmethod, hparameters⟩ := hmethods _ (List.mem_singleton_self _) _ rfl
  cases htype
  refine ⟨hok, hclass _ rfl, hfields _ (List.mem_singleton_self _) _ rfl, hmethod,
    hparameters 1 _ _ rfl rfl, ?_⟩
  have hbelow : Item.token ⟨18, .ident, "y"⟩ ∈ nameless.preorder :=
    Node.mem_tokens.1 (List.mem_singleton_self _)
  exact hhidden _ hnameless nameless (List.mem_singleton_self _) _ hbelow (by decide)

end SymbolRanges

import SymbolRanges.Proofs.Extraction.Comparison

/-!
# What the unit of offsets and the records at the head affect

An extraction may count offsets in another unit, and it may leave out the package or the imports.
`extract_agrees_across_units` says that this changes what these options name and nothing else. Both
extractions succeed, or both fail with the same error. They have the same diagnostics and, behind
the head of the file, the same records, and where two offsets differ they are the same position of
the tree in two units.
-/

set_option autoImplicit false

namespace SymbolRanges

/-- Every target is like itself. -/
theorem Target.Alike.refl (target : Target) : target.Alike Eq target := by
  cases target with
  | localVariable d name => exact .localVariable rfl name
  | parameter d name site => exact .parameter rfl name site
  | package name => exact .same rfl
  | classDecl qualifiedName => exact .same rfl
  | field owner name => exact .same rfl
  | method owner name type => exact .same rfl
  | other description => exact .same rfl

/-- Two extractions of one tree with options that agree on regions and indices, side by side. -/
def Comparison.ofUnits (file : String) (tree : Tree) (resolver : Resolver)
    {options options' : Options} (hbase : options.injectedBase = options'.injectedBase)
    (hmarker : options.marker? = options'.marker?) :
    Comparison (.ofText file tree.root.text resolver options)
      (.ofText file tree.root.text resolver options') where
  toCounterparts := .same options tree.root
  spans := Eq
  file_eq := rfl
  base_eq := hbase
  marker?_eq := hmarker
  target := by
    rintro m n ⟨hmn, -⟩ -
    obtain rfl : m = n := Item.node.inj hmn
    show Option.Rel (Target.Alike Eq) (resolver.target? m) (resolver.target? m)
    cases resolver.target? m with
    | none => exact .none
    | some target => exact .some (Target.Alike.refl target)
  methodType_eq := by
    rintro m n ⟨hmn, -⟩ -
    obtain rfl : m = n := Item.node.inj hmn
    rfl
  eq_span_iff := by
    rintro d e rfl s t ⟨hst, -⟩ -
    obtain rfl : s = t := Item.token.inj hst
    exact Iff.rfl

/-- Two records of one symbol at one item of a tree, each with the offsets of its own context. -/
def Node.RecordedAlike (root : Node) (context context' : FileContext) (r r' : Record) : Prop :=
  ∃ x ∈ root.preorder, ∃ identity, r = context.recordAt x.span identity ∧
    r' = context'.recordAt x.span identity

/-- Two diagnostics that say the same about one item of a tree, each with the offset of its own
context. -/
def Node.ReportedAlike (root : Node) (context context' : FileContext) (d d' : Diagnostic) : Prop :=
  d.severity = d'.severity ∧ d.code = d'.code ∧ d.file = d'.file ∧ d.message = d'.message ∧
    ∃ x ∈ root.preorder, d.offset = some (context.offsets.offset x.start) ∧
      d'.offset = some (context'.offsets.offset x.start)

/-- The unit of offsets and the choice of what is recorded at the head of a file affect nothing but
what they name. Two extractions that differ in these options both succeed, or both fail with the
same error up to its offset. Their diagnostics are the same in number, order, severity, code and
message. On success the records behind those of the head are the same in number, order and identity,
and so are those of the package and of the imports where both have them. All offsets in a pair of
records or diagnostics are the same byte positions of the tree, counted in the two units. -/
theorem extract_agrees_across_units (file : String) (tree : Tree) (resolver : Resolver)
    (options : Options) (encoding : Encoding) (recordsPackage recordsImports : Bool) :
    let root := tree.root
    let options' := { options with encoding, recordsPackage, recordsImports }
    let context := FileContext.ofText file root.text resolver options
    let context' := FileContext.ofText file root.text resolver options'
    let e := extract file tree resolver options
    let e' := extract file tree resolver options'
    e.result.mapError (Stop.withOffset 0) = e'.result.mapError (Stop.withOffset 0) ∧
    List.Forall₂ (root.ReportedAlike context context') e.diagnostics e'.diagnostics ∧
    List.Forall₂ (root.RecordedAlike context context') (context.packageRecords root)
      (context'.packageRecords root) ∧
    List.Forall₂ (root.RecordedAlike context context') (context.importRecords root)
      (context'.importRecords root) ∧
    (e.result = .ok () → ∃ rest rest',
      e.records = (if options.recordsPackage then context.packageRecords root else []) ++
        (if options.recordsImports then context.importRecords root else []) ++ rest ∧
      e'.records = (if recordsPackage then context'.packageRecords root else []) ++
        (if recordsImports then context'.importRecords root else []) ++ rest' ∧
      List.Forall₂ (root.RecordedAlike context context') rest rest') := by
  intro root options' context context' e e'
  -- the two extractions are compared item by item over one tree
  let C : Comparison context context' := Comparison.ofUnits file tree resolver rfl rfl
  have hroots : C.Nodes root root := ⟨rfl, root.self_mem_preorder⟩
  have halike : C.Extractions root root e e' := Comparison.scanRoot hroots file
  have hrecorded : ∀ r r', C.Records r r' → root.RecordedAlike context context' r r' := by
    intro r r' hr
    obtain ⟨x, y, identity, ⟨hxy, hx⟩, hleft, hright⟩ := hr.exists_item
    exact ⟨x, hx, identity, hleft, hxy ▸ hright⟩
  refine ⟨halike.result_eq 0, halike.diagnostics.imp ?_, (Comparison.packageRecords hroots).imp
    hrecorded, (Comparison.importRecords hroots).imp hrecorded, ?_⟩
  · intro d d' hd
    obtain ⟨hseverity, hcode, hfile, hmessage, x, y, ⟨hxy, hx⟩, hleft, hright⟩ := hd.exists_item
    exact ⟨hseverity, hcode, hfile, hmessage, x, hx, hleft, hxy ▸ hright⟩
  · intro hok
    obtain ⟨rest, rest', hrecords, hrecords', hrest⟩ := halike.records hok
    exact ⟨rest, rest', hrecords, hrecords', hrest.imp hrecorded⟩

/-- A file with a comment that is wider in bytes than in characters, a package, an import and a
class. -/
def headedTree : Tree :=
  ⟨⟨0⟩, .sourceFile,
    [.token .blockComment "/*é*/", .node .packageStatement [.node .reference [.token .ident "p"]],
      .node .importStatement [.node .reference [.token .ident "q"]],
      .node .classDecl [.token .ident "A"]]⟩

/-- In bytes and without the package, the file has the same records behind its package, one byte
further on. -/
theorem extract_agrees_across_units_headed :
    let e := extract "A.java" headedTree Bindings.empty.resolver {}
    let e' := extract "A.java" headedTree Bindings.empty.resolver
      { encoding := .utf8, recordsPackage := false }
    e.records =
      [⟨"A.java", 5, 6, .package "p"⟩, ⟨"A.java", 6, 7, .classDecl "q"⟩,
        ⟨"A.java", 7, 8, .classDecl "p.A"⟩] ∧
    e'.records = [⟨"A.java", 7, 8, .classDecl "q"⟩, ⟨"A.java", 8, 9, .classDecl "p.A"⟩] ∧
    (e.records.drop 2).map Record.identity = (e'.records.drop 1).map Record.identity := by
  intro e e'
  have hok : e.result = .ok () := by decide +kernel
  obtain ⟨-, -, -, -, hrecords⟩ := extract_agrees_across_units "A.java" headedTree
    Bindings.empty.resolver {} .utf8 false true
  obtain ⟨rest, rest', he, he', hrest⟩ := hrecords hok
  refine ⟨by decide +kernel, by decide +kernel, ?_⟩
  have hdrop : e.records.drop 2 = rest := congrArg (List.drop 2) he
  have hdrop' : e'.records.drop 1 = rest' := congrArg (List.drop 1) he'
  rw [hdrop, hdrop']
  refine map_eq_of_forall₂ hrest ?_
  rintro r r' ⟨x, -, identity, rfl, rfl⟩
  rfl

end SymbolRanges

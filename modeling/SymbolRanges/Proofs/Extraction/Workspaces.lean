import SymbolRanges.Extraction.Run
import SymbolRanges.Proofs.Extraction.Units
import SymbolRanges.Proofs.IndexTable
import SymbolRanges.Proofs.Tree.Tokens

/-!
# One resolver for many files

Spans of different files coincide, so a workspace keeps one table for each tree. An extraction asks
about nodes of its own tree only (`extract_congr`), and all of these belong to the tree of the root
(`tree_of_mem_descendants`). So each file is extracted as with its own table, whatever else is
registered: `extractInput_workspace_eq`.
-/

set_option autoImplicit false

namespace SymbolRanges

/-- Every node below a root belongs to the tree of the root. -/
theorem Node.tree_of_mem_descendants (root : Node) :
    ∀ n ∈ root.descendants, n.tree = root.tree := by
  induction root using Node.induction with
  | step root ih =>
    intro n hn
    rw [descendants_eq] at hn
    rcases List.mem_cons.1 hn with rfl | hbelow
    · rfl
    · obtain ⟨c, hc, hnc⟩ := List.mem_flatMap.1 hbelow
      exact (ih c hc n hnc).trans (tree_of_mem_childNodes hc)

/-! ### What an extraction asks for -/

/-- Two resolvers that give the same answers about a node and all nodes below it. -/
structure Resolver.AgreeBelow (root : Node) (r r' : Resolver) : Prop where
  target?_eq : ∀ n ∈ root.descendants, r.target? n = r'.target? n
  methodType?_eq : ∀ n ∈ root.descendants, r.methodType? n = r'.methodType? n

/-- Two extractions of one tree with resolvers that agree below its root, side by side. -/
def Comparison.ofResolvers (file : String) (tree : Tree) (options : Options) {r r' : Resolver}
    (h : r.AgreeBelow tree.root r') :
    Comparison (.ofText file tree.root.text r options)
      (.ofText file tree.root.text r' options) where
  toCounterparts := .same options tree.root
  spans := Eq
  file_eq := rfl
  base_eq := rfl
  marker?_eq := rfl
  target := by
    rintro m n ⟨hmn, hm⟩ -
    obtain rfl : m = n := Item.node.inj hmn
    show Option.Rel (Target.Alike Eq) (r.target? m) (r'.target? m)
    rw [h.target?_eq m (Node.mem_descendants_iff.2 hm)]
    cases r'.target? m with
    | none => exact .none
    | some target => exact .some (Target.Alike.refl target)
  methodType_eq := by
    rintro m n ⟨hmn, hm⟩ -
    obtain rfl : m = n := Item.node.inj hmn
    exact h.methodType?_eq m (Node.mem_descendants_iff.2 hm)
  eq_span_iff := by
    rintro d e rfl s t ⟨hst, -⟩ -
    obtain rfl : s = t := Item.token.inj hst
    exact Iff.rfl

namespace Comparison

variable {file : String} {tree : Tree} {options : Options} {r r' : Resolver}
  (h : r.AgreeBelow tree.root r')

include h

/-- Failures that correspond for the same tree are the same. -/
theorem failures_ofResolvers_eq {failure failure' : FileFailure}
    (hfailures : (ofResolvers file tree options h).Failures failure failure') :
    failure = failure' := by
  obtain ⟨heq, x, y, ⟨rfl, -⟩, hx, hy⟩ := hfailures
  have hoffset : failure'.offset = failure.offset := hy.trans hx.symm
  rw [← heq, hoffset]
  cases failure <;> rfl

/-- Entries that correspond for the same tree are the same. -/
theorem entries_ofResolvers_eq {e e' : Entry}
    (hentries : (ofResolvers file tree options h).Entries e e') : e = e' := by
  cases hentries with
  | record hxy identity =>
    obtain ⟨rfl, -⟩ := hxy
    rfl
  | warning hxy scope warning =>
    obtain ⟨rfl, -⟩ := hxy
    rfl
  | failure hfailures message => rw [failures_ofResolvers_eq h hfailures]
  | note event => rfl

/-- Results that correspond for the same tree are the same. -/
theorem result_ofResolvers_eq {s s' : Except Stop Unit}
    (hresult : ResultsAlike (ofResolvers file tree options h).Stops Eq s s') : s = s' := by
  cases hresult with
  | ok hunit => rfl
  | error hstop =>
    cases hstop with
    | failed hfailures => rw [failures_ofResolvers_eq h hfailures]
    | indexOverflow => rfl

/-- Scans of one file that go alike with both resolvers come out the same. -/
theorem run_ofResolvers_eq {x y : FileScan Unit}
    (hxy : (ofResolvers file tree options h).Files x y) :
    x.run () = y.run () := by
  obtain ⟨hjournal, hstate, hresult⟩ := hxy () () rfl
  have hsame : (x.run ()).journal = (y.run ()).journal := by
    rw [← List.forall₂_eq_eq_eq]
    exact hjournal.imp fun _ _ => entries_ofResolvers_eq h
  have hend := result_ofResolvers_eq h hresult
  cases hx : x.run ()
  cases hy : y.run ()
  rw [hx, hy] at hsame hstate hend
  cases hsame
  cases hstate
  cases hend
  rfl

end Comparison

/-- An extraction depends on nothing but the answers about the nodes of its tree. -/
theorem extract_congr {tree : Tree} {r r' : Resolver} (h : r.AgreeBelow tree.root r')
    (file : String) (options : Options) :
    extract file tree r options = extract file tree r' options := by
  let left := FileContext.ofText file tree.root.text r options
  let right := FileContext.ofText file tree.root.text r' options
  let C : Comparison left right := Comparison.ofResolvers file tree options h
  have hroots : C.Nodes tree.root tree.root := ⟨rfl, tree.root.self_mem_preorder⟩
  have hrun : (left.scanRoot tree.root).run () = (right.scanRoot tree.root).run () := by
    cases hroot : tree.root.malformation? with
    | none =>
      have hloops : C.Files (tree.root.declarations.forM left.scanDeclaration)
          (tree.root.declarations.forM right.scanDeclaration) :=
        .forM (Comparison.declarations hroots) fun _ _ hde => Comparison.scanDeclaration hde
      rw [left.run_scanRoot_of_wellFormed hroot, right.run_scanRoot_of_wellFormed hroot,
        Comparison.run_ofResolvers_eq h hloops]
      rfl
    | some found =>
      obtain ⟨malformation, position⟩ := found
      rw [left.run_scanRoot_of_malformed hroot, right.run_scanRoot_of_malformed hroot]
      rfl
  exact congrArg (ExtractedFile.ofOutcome file) hrun

/-! ### Workspaces -/

namespace Bindings

/-- The empty table knows no target. -/
theorem target?_resolver_empty (n : Node) : empty.resolver.target? n = none := by
  show (n.referenceName?.bind fun _ => none) = none
  simp

/-- The empty table knows no types of methods. -/
theorem methodType?_resolver_empty (n : Node) : empty.resolver.methodType? n = none := by
  show (n.nameToken?.bind fun _ => none) = none
  simp

end Bindings

namespace Workspace

/-- Registers the trees of files, each with the table of the file, one after the other. -/
def insertAll (workspace : Workspace) (units : List (InputFile × Bindings)) : Workspace :=
  units.foldl (fun workspace unit => workspace.insert unit.1.tree.id unit.2) workspace

/-- Registering trees puts their tables under their trees, one after the other. -/
theorem files_insertAll (workspace : Workspace) (units : List (InputFile × Bindings)) :
    (workspace.insertAll units).files =
      workspace.files.insertAll (units.map fun unit => (unit.1.tree.id, unit.2)) := by
  induction units generalizing workspace with
  | nil => rfl
  | cons unit rest ih => exact ih _

/-- The nodes of a registered tree are answered as by its own table. -/
theorem resolver_agreeBelow {workspace : Workspace} {tree : Tree} {table : Bindings}
    (h : workspace.files.find? tree.id = some table) :
    workspace.resolver.AgreeBelow tree.root table.resolver where
  target?_eq n hn := target?_resolver (by rw [tree.root.tree_of_mem_descendants n hn]; exact h)
  methodType?_eq n hn :=
    methodType?_resolver (by rw [tree.root.tree_of_mem_descendants n hn]; exact h)

/-- The nodes of a tree that is not registered are answered as by the empty table. -/
theorem resolver_agreeBelow_empty {workspace : Workspace} {tree : Tree}
    (h : workspace.files.find? tree.id = none) :
    workspace.resolver.AgreeBelow tree.root Bindings.empty.resolver := by
  have hnone : ∀ n ∈ tree.root.descendants, workspace.files.find? n.tree = none := by
    intro n hn
    rw [tree.root.tree_of_mem_descendants n hn]
    exact h
  constructor
  · intro n hn
    rw [Bindings.target?_resolver_empty]
    simp [resolver, hnone n hn]
  · intro n hn
    rw [Bindings.methodType?_resolver_empty]
    simp [resolver, hnone n hn]

/-- If no two trees are the same, every registered tree is found with its own table. -/
theorem find?_files_insertAll_of_mem {units : List (InputFile × Bindings)}
    (hnodup : (units.map fun unit => unit.1.tree.id).Nodup) {unit : InputFile × Bindings}
    (h : unit ∈ units) :
    (empty.insertAll units).files.find? unit.1.tree.id = some unit.2 := by
  rw [files_insertAll]
  refine Table.find?_insertAll_of_mem ?_ (List.mem_map_of_mem h)
  rw [List.map_map]
  exact hnodup

/-- A tree that is not among those registered is not found. -/
theorem find?_files_insertAll_of_notMem {units : List (InputFile × Bindings)} {id : TreeId}
    (h : id ∉ units.map fun unit => unit.1.tree.id) :
    (empty.insertAll units).files.find? id = none := by
  rw [files_insertAll]
  refine Table.find?_insertAll_of_notMem ?_
  rw [List.map_map]
  exact h

end Workspace

/-- One workspace serves many files without mixing them. When files with different trees are
registered, each with its own table, every one of them is extracted through the workspace exactly as
with its table alone, and a file that is not registered exactly as with the table without
answers. -/
theorem extractInput_workspace_eq (units : List (InputFile × Bindings))
    (hnodup : (units.map fun unit => unit.1.tree.id).Nodup) (options : Options) :
    let e : Extractor := ⟨(Workspace.empty.insertAll units).resolver, options⟩
    (∀ unit ∈ units, e.extractInput unit.1 =
      extract unit.1.path unit.1.tree unit.2.resolver options) ∧
    ∀ input : InputFile, (input.tree.id ∉ units.map fun unit => unit.1.tree.id) →
      e.extractInput input = extract input.path input.tree Bindings.empty.resolver options := by
  intro e
  constructor
  · intro unit hunit
    have hfound := Workspace.find?_files_insertAll_of_mem hnodup hunit
    exact extract_congr (Workspace.resolver_agreeBelow hfound) unit.1.path options
  · intro input hinput
    have hnone := Workspace.find?_files_insertAll_of_notMem hinput
    exact extract_congr (Workspace.resolver_agreeBelow_empty hnone) input.path options

/-- A file with a class that extends another. -/
def subclassFile (path : String) (id : Nat) : InputFile where
  path := path
  tree := ⟨⟨id⟩, .sourceFile,
    [.node .classDecl [.token .ident "A", .token .whitespace " ",
      .node .extendsList [.node .reference [.token .ident "B"]]]]⟩

/-- The table in which the class that `subclassFile` extends has a given name. -/
def superclassTable (name : String) : Bindings :=
  Bindings.empty.insertReference ⟨2, 3, by decide⟩ (.classDecl name)

/-- Two trees of one shape, whose references stand at the same span, are answered by their own
tables, and a third tree of this shape by none. -/
theorem extractInput_workspace_eq_subclasses :
    let units := [(subclassFile "p/A.java" 0, superclassTable "p.B"),
      (subclassFile "q/A.java" 1, superclassTable "q.B")]
    let e : Extractor := ⟨(Workspace.empty.insertAll units).resolver, {}⟩
    (e.extractInput (subclassFile "p/A.java" 0)).records =
      [⟨"p/A.java", 0, 1, .classDecl "A"⟩, ⟨"p/A.java", 2, 3, .classDecl "p.B"⟩] ∧
    (e.extractInput (subclassFile "q/A.java" 1)).records =
      [⟨"q/A.java", 0, 1, .classDecl "A"⟩, ⟨"q/A.java", 2, 3, .classDecl "q.B"⟩] ∧
    (e.extractInput (subclassFile "r/A.java" 2)).result =
      .error (.failed (.unresolvedReference "r/A.java" "A" .outsideMethod "B" 2)) := by
  intro units e
  obtain ⟨hregistered, hother⟩ := extractInput_workspace_eq units (by decide) {}
  have hp : e.extractInput (subclassFile "p/A.java" 0) = _ := hregistered _ List.mem_cons_self
  have hq : e.extractInput (subclassFile "q/A.java" 1) = _ :=
    hregistered _ (List.mem_cons_of_mem _ List.mem_cons_self)
  have hr : e.extractInput (subclassFile "r/A.java" 2) = _ := hother _ (by decide)
  rw [hp, hq, hr]
  exact ⟨by decide +kernel, by decide +kernel, by decide +kernel⟩

end SymbolRanges

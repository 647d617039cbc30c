import SymbolRanges.Proofs.Extraction.Comparison

/-!
# Layout does not change what is extracted

Two trees that differ in layout have their names at different offsets, so everything that an
extraction looks up by its place, the answers of the resolver and the indices of the declared
variables, is found under other spans. `extract_ignores_layout` says that nothing else changes: with
resolvers that answer alike, both extractions succeed or both fail with the same error, and they
have the same identities and the same diagnostics in the same order, but for offsets.
-/

set_option autoImplicit false

namespace SymbolRanges

/-- Two resolvers that answer alike for two trees: they give corresponding references targets that
differ only in where the declarations stand, which is at the same place, and corresponding methods
the same type. -/
structure Resolver.AnswersAlike (options : Options) (tree tree' : Tree)
    (resolver resolver' : Resolver) : Prop where
  target : ∀ {m n}, Corresponding options tree.root tree'.root (.node m) (.node n) →
    m.kind = .reference → Option.Rel
      (Target.Alike (SamePlace options tree.root tree'.root)) (resolver.target? m)
      (resolver'.target? n)
  methodType_eq : ∀ {m n}, Corresponding options tree.root tree'.root (.node m) (.node n) →
    m.kind = .method → resolver.methodType? m = resolver'.methodType? n

/-- The extractions of two trees that differ in layout, side by side. -/
def Comparison.ofLayout {options : Options} {tree tree' : Tree} {resolver resolver' : Resolver}
    (file : String) (hlayout : tree.SameButLayout options tree')
    (hnames : ∀ t, Item.token t ∈ tree.root.preorder → t.kind = .ident → t.text ≠ "")
    (hresolvers : Resolver.AnswersAlike options tree tree' resolver resolver') :
    Comparison (.ofText file tree.root.text resolver options)
      (.ofText file tree'.root.text resolver' options) where
  toCounterparts := .corresponding hlayout.shape_eq
  spans := SamePlace options tree.root tree'.root
  file_eq := rfl
  base_eq := rfl
  marker?_eq := rfl
  target := hresolvers.target
  methodType_eq := hresolvers.methodType_eq
  eq_span_iff hde _ _ hst hkind :=
    hde.eq_span_iff hlayout.shape_eq hst hkind (hnames _ hst.mem_left hkind)

/-- Layout does not change what is extracted. For two trees of which one arises from the other by
inserting and deleting blanks and comments that mark no region, with no empty identifiers, and for
resolvers that answer alike, both extractions succeed, or both fail with the same error up to its
offset. They record the same sequence of identities and report the same sequence of severities,
codes and messages. -/
theorem extract_ignores_layout (file : String) (options : Options) (tree tree' : Tree)
    (resolver resolver' : Resolver) (hlayout : tree.SameButLayout options tree')
    (hnames : ∀ t, Item.token t ∈ tree.root.preorder → t.kind = .ident → t.text ≠ "")
    (hresolvers : Resolver.AnswersAlike options tree tree' resolver resolver') :
    let e := extract file tree resolver options
    let e' := extract file tree' resolver' options
    e.result.mapError (Stop.withOffset 0) = e'.result.mapError (Stop.withOffset 0) ∧
    e.records.map Record.identity = e'.records.map Record.identity ∧
    e.diagnostics.map (fun d => (d.severity, d.code, d.message)) =
      e'.diagnostics.map fun d => (d.severity, d.code, d.message) := by
  intro e e'
  let C := Comparison.ofLayout file hlayout hnames hresolvers
  have hroots : C.Nodes tree.root tree'.root := Corresponding.root options _ _
  have halike : C.Extractions tree.root tree'.root e e' := Comparison.scanRoot hroots file
  refine ⟨halike.result_eq 0, ?_, ?_⟩
  · cases hresult : e.result with
    | error stop =>
      -- both fail, so that neither has records
      have hnone : e.records = [] := records_extract_of_error hresult
      have hnone' : e'.records = [] := by
        cases hresult' : e'.result with
        | error stop' => exact records_extract_of_error hresult'
        | ok _ =>
          have hok := halike.result.eq_ok_iff.2 hresult'
          cases hresult.symm.trans hok
      rw [hnone, hnone']
    | ok _ =>
      obtain ⟨rest, rest', hrecords, hrecords', hrest⟩ := halike.records hresult
      have hhead := Comparison.headRecords hroots rfl rfl
      rw [hrecords, hrecords']
      exact map_eq_of_forall₂ (List.rel_append hhead hrest) fun _ _ hr => hr.identity_eq
  · refine map_eq_of_forall₂ halike.diagnostics ?_
    intro d d' hd
    obtain ⟨hseverity, hcode, -, hmessage, -⟩ := hd.exists_item
    rw [hseverity, hcode, hmessage]

/-- A method without layout that declares the variable `b` and refers to it and to `x`. -/
def denseTree : Tree :=
  ⟨⟨0⟩, .sourceFile,
    [.node .classDecl
      [.token .ident "A",
        .node .method
          [.token .ident "m",
            .node .codeBlock
              [.node .declarationStatement [.node .localVariable [.token .ident "b"]],
                .node .reference [.token .ident "b"], .node .reference [.token .ident "x"]]]]]⟩

/-- The same method with blanks and comments. -/
def spacedTree : Tree :=
  ⟨⟨1⟩, .sourceFile,
    [.node .classDecl
      [.token .whitespace " ", .token .ident "A", .token .blockComment "/**/",
        .node .method
          [.token .ident "m",
            .node .codeBlock
              [.node .declarationStatement
                [.node .localVariable [.token .ident "b", .token .lineComment "//b"]],
                .token .whitespace "\n",
                .node .reference [.token .whitespace " ", .token .ident "b"],
                .node .reference [.token .ident "x"]]]]]⟩

/-- The answers for the one tree; the declaration of `x` stands elsewhere. -/
def denseBindings : Bindings :=
  ((Bindings.empty.insertMethod (.ofSize 1 1) ⟨[], .primitive .void⟩).insertReference
    (.ofSize 3 1) (.localVariable (.ofSize 2 1) "b")).insertReference
    (.ofSize 4 1) (.localVariable (.ofSize 20 1) "x")

/-- The same answers for the other tree. -/
def spacedBindings : Bindings :=
  ((Bindings.empty.insertMethod (.ofSize 6 1) ⟨[], .primitive .void⟩).insertReference
    (.ofSize 13 1) (.localVariable (.ofSize 7 1) "b")).insertReference
    (.ofSize 14 1) (.localVariable (.ofSize 40 1) "x")

/-- The two trees differ in blanks and comments only. -/
theorem denseTree_sameButLayout : denseTree.SameButLayout {} spacedTree where
  kind_eq := rfl
  children :=
    .node (.insert rfl (.token (.insert rfl (.node (.token (.node
      (.node (.node (.token (.insert (by decide) .nil)) .nil) (.insert rfl
        (.node (.insert rfl (.token .nil)) (.node (.token .nil) .nil)))) .nil)) .nil)))) .nil

/-- The two tables give the same answers, each about its own tree. -/
theorem denseBindings_answersAlike :
    Resolver.AnswersAlike {} denseTree spacedTree denseBindings.resolver
      spacedBindings.resolver where
  target := by
    intro m n hmn hkind
    have hreferences : ((((Item.node denseTree.root).solid {}).zip
        ((Item.node spacedTree.root).solid {})).filter fun p => decide (p.1.kind = .reference)) =
        [(.node ⟨⟨0⟩, 3, .reference, [.token .ident "b"]⟩,
            .node ⟨⟨1⟩, 12, .reference, [.token .whitespace " ", .token .ident "b"]⟩),
          (.node ⟨⟨0⟩, 4, .reference, [.token .ident "x"]⟩,
            .node ⟨⟨1⟩, 14, .reference, [.token .ident "x"]⟩)] := rfl
    have hmem := (List.mem_filter (p := fun p : Item × Item => decide (p.1.kind = .reference))).2
      ⟨hmn, decide_eq_true hkind⟩
    rw [hreferences, List.mem_cons, List.mem_singleton] at hmem
    rcases hmem with hpair | hpair
    · cases hpair
      have hdeclaration : Corresponding {} denseTree.root spacedTree.root
          (.token ⟨2, .ident, "b"⟩) (.token ⟨7, .ident, "b"⟩) :=
        List.mem_of_getElem? (i := 8) rfl
      exact .some (.localVariable (.token hdeclaration) "b")
    · cases hpair
      exact .some (.localVariable (.nowhere (by decide +kernel) (by decide +kernel)) "x")
  methodType_eq := by
    intro m n hmn hkind
    have hmethods : ((((Item.node denseTree.root).solid {}).zip
        ((Item.node spacedTree.root).solid {})).filter fun p => decide (p.1.kind = .method)) =
        [(.node ⟨⟨0⟩, 1, .method, _⟩, .node ⟨⟨1⟩, 6, .method, _⟩)] := rfl
    have hmem := (List.mem_filter (p := fun p : Item × Item => decide (p.1.kind = .method))).2
      ⟨hmn, decide_eq_true hkind⟩
    rw [hmethods, List.mem_singleton] at hmem
    cases hmem
    rfl

/-- Blanks and comments move every name of the file and change no identity. -/
theorem extract_ignores_layout_spaced :
    let e := extract "A.java" denseTree denseBindings.resolver {}
    let e' := extract "A.java" spacedTree spacedBindings.resolver {}
    e.records.map (fun r => (r.start, r.stop)) = [(0, 1), (1, 2), (2, 3), (3, 4), (4, 5)] ∧
    e'.records.map (fun r => (r.start, r.stop)) =
      [(1, 2), (6, 7), (7, 8), (13, 14), (14, 15)] ∧
    e'.result.mapError (Stop.withOffset 0) = .ok () ∧
    e'.records.map Record.identity =
      [.classDecl "A", .method "A" "m" "()V",
        .localVariable ⟨"A", ⟨"m", "()V"⟩, "b", some 0⟩,
        .localVariable ⟨"A", ⟨"m", "()V"⟩, "b", some 0⟩,
        .localVariable ⟨"A", ⟨"m", "()V"⟩, "x", none⟩] ∧
    e'.diagnostics.map (fun d => (d.severity, d.code, d.message)) =
      [(.warning, .missingLocalIndex, "no index for local variable `x` in A m,()V")] := by
  intro e e'
  have hnames : ∀ t, Item.token t ∈ denseTree.root.preorder → t.kind = .ident → t.text ≠ "" := by
    have htokens : ∀ t ∈ denseTree.root.tokens, t.kind = .ident → t.text ≠ "" := by decide +kernel
    exact fun t ht => htokens t (Node.mem_tokens.2 ht)
  obtain ⟨hresult, hidentities, hdiagnostics⟩ := extract_ignores_layout "A.java" {} denseTree
    spacedTree denseBindings.resolver spacedBindings.resolver denseTree_sameButLayout hnames
    denseBindings_answersAlike
  refine ⟨by decide +kernel, by decide +kernel, ?_, ?_, ?_⟩
  · rw [← hresult]
    decide +kernel
  · rw [← hidentities]
    decide +kernel
  · rw [← hdiagnostics]
    decide +kernel

end SymbolRanges

import Mathlib.Data.List.Pairwise
import SymbolRanges.Proofs.Extraction.Structure

/-!
# Missing indices are announced

A variable that is recorded without an index is written with a number that stands for none, and
whoever reads the range map relies on a warning to notice. Records and warnings are gathered apart,
so what ties them together is the journal: each warning about a missing index is followed at once by
the record that lacks it, and no other record lacks one. `Journal.Announced` says this of a journal,
and it holds of whatever the extraction of a file writes: `FileContext.scanRoot_announces`.

`extract_announces_missing_indices` is the result for the records and the diagnostics of a file,
with the places where an index can be missing: only at references, and never at the name of a
declaration.
-/

set_option autoImplicit false

namespace SymbolRanges

/-- The code of the warning that goes with an identity: that of a local variable or of a parameter
without an index. -/
def Identity.missingIndexCode? : Identity → Option Code
  | .localVariable v => if v.index.isNone then some .missingLocalIndex else none
  | .parameter v => if v.index.isNone then some .missingParameterIndex else none
  | _ => none

/-- Whether a code says that an index is missing. -/
def Code.saysMissingIndex (code : Code) : Bool :=
  decide (code = .missingLocalIndex ∨ code = .missingParameterIndex)

/-- Whether an entry is a warning about a missing index or a record without one. -/
def Entry.concernsMissingIndex : Entry → Bool
  | .record r => r.identity.missingIndexCode?.isSome
  | .diagnostic d => d.code.saysMissingIndex
  | .note _ => false

/-! ### Journals -/

/-- A journal in which every warning about a missing index comes right before the record that lacks
it, at the same offset, and in which no other record lacks an index. -/
inductive Journal.Announced : Journal → Prop
  | nil : Announced []
  | other {entry : Entry} {rest : Journal} (hentry : entry.concernsMissingIndex = false)
    (hrest : Announced rest) : Announced (entry :: rest)
  | missing {d : Diagnostic} {r : Record} {rest : Journal}
    (hcode : r.identity.missingIndexCode? = some d.code) (hoffset : d.offset = some r.start)
    (hrest : Announced rest) : Announced (.diagnostic d :: .record r :: rest)

namespace Journal.Announced

/-- Two journals in a row announce what each of them does. -/
theorem append {xs ys : Journal} (hx : Announced xs) (hy : Announced ys) :
    Announced (xs ++ ys) := by
  induction hx with
  | nil => exact hy
  | other hentry _ ih => exact .other hentry ih
  | missing hcode hoffset _ ih => exact .missing hcode hoffset ih

/-- The warnings with a code that says that an index is missing are those of the records that lack
it, in the same order. -/
theorem offsets_eq {journal : Journal} (h : Announced journal) {code : Code}
    (hcode : code.saysMissingIndex = true) :
    ((diagnostics journal).filter fun d => decide (d.code = code)).map Diagnostic.offset =
      ((records journal).filter fun r =>
        decide (r.identity.missingIndexCode? = some code)).map fun r => some r.start := by
  induction h with
  | nil => rfl
  | @other entry rest hentry _ ih =>
    cases entry with
    | note event => exact ih
    | record r =>
      have hnone : r.identity.missingIndexCode? = none :=
        Option.isNone_iff_eq_none.1 (Option.isSome_eq_false_iff.1 hentry)
      have hrecords : records (.record r :: rest) = r :: records rest := rfl
      rw [hrecords, List.filter_cons, if_neg (by simp [hnone])]
      exact ih
    | diagnostic d =>
      have hother : d.code ≠ code := by
        rintro rfl
        exact Bool.false_ne_true (hentry.symm.trans hcode)
      have hdiagnostics : diagnostics (.diagnostic d :: rest) = d :: diagnostics rest := rfl
      rw [hdiagnostics, List.filter_cons, if_neg (by simp [hother])]
      exact ih
  | @missing d r rest hmissing hoffset _ ih =>
    have hdiagnostics : diagnostics (.diagnostic d :: .record r :: rest) =
        d :: diagnostics rest := rfl
    have hrecords : records (.diagnostic d :: .record r :: rest) = r :: records rest := rfl
    rw [hdiagnostics, hrecords, List.filter_cons, List.filter_cons, hmissing]
    -- the warning and the record have one code, so that both count or neither does
    by_cases hsame : d.code = code
    · rw [if_pos (decide_eq_true hsame), if_pos (decide_eq_true (congrArg some hsame)),
        List.map_cons, List.map_cons, ih, hoffset]
    · rw [if_neg (by simpa using hsame), if_neg (by simpa using hsame)]
      exact ih

end Journal.Announced

/-! ### Scans -/

/-- A scan that announces every index that is missing in what it records. -/
def Scan.Announces {σ α : Type} (x : Scan σ α) : Prop := ∀ s, Journal.Announced (x.run s).journal

namespace Scan.Announces

variable {σ τ α β : Type}

/-- A scan that writes nothing. -/
theorem of_nil {x : Scan σ α} (h : ∀ s, (x.run s).journal = []) : x.Announces := by
  intro s
  rw [h s]
  exact .nil

/-- One entry is announced if it concerns no missing index. -/
theorem write {entry : Entry} (h : entry.concernsMissingIndex = false) :
    (Scan.write entry : Scan σ Unit).Announces :=
  fun _ => .other h .nil

/-- A failure concerns no missing index. -/
theorem fail (failure : FileFailure) (message : String) :
    (Scan.fail failure message : Scan σ α).Announces := by
  intro s
  refine .other ?_ .nil
  cases failure <;> rfl

/-- Two scans in a row announce every missing index if both do. -/
theorem bind {x : Scan σ α} {f : α → Scan σ β} (hx : x.Announces) (hf : ∀ a, (f a).Announces) :
    (x >>= f).Announces := by
  intro s
  rw [run_bind, Outcome.andThen]
  cases hresult : (x.run s).result with
  | error stop => exact hx s
  | ok a => exact (hx s).append (hf a _)

/-- A loop announces every missing index if each of its steps does. -/
theorem forM {f : α → Scan σ Unit} (xs : List α) (h : ∀ x ∈ xs, (f x).Announces) :
    (xs.forM f).Announces := by
  induction xs with
  | nil => exact of_nil fun _ => rfl
  | cons x rest ih =>
    have hrest := ih fun y hy => h y (List.mem_cons_of_mem x hy)
    exact (h x List.mem_cons_self).bind fun _ => hrest

/-- A walker of its own announces what its scan does. -/
theorem fresh {x : Scan τ α} (hx : x.Announces) (initial : τ) :
    (Scan.fresh initial x : Scan σ α).Announces :=
  fun _ => hx initial

end Scan.Announces

/-! ### Walks -/

namespace Scope

variable (scope : Scope)

/-- A warning with another code needs no record behind it. -/
theorem warn_announces {warning : Warning} (h : warning.code.saysMissingIndex = false)
    (position : Nat) : (scope.warn position warning).Announces :=
  .write h

/-- A reference to a local variable is recorded with its index, or announced. -/
theorem recordLocalReference_announces (reference : Token) (declaration : Span) (name : String) :
    (scope.recordLocalReference reference declaration name).Announces := by
  intro s
  rw [run_recordLocalReference]
  cases s.locals.find? declaration with
  | none => exact .missing rfl rfl .nil
  | some index => exact .other rfl .nil

/-- A reference to a parameter is recorded with its index, or announced. -/
theorem recordParameterReference_announces (reference : Token) (declaration : Span)
    (name : String) : (scope.recordParameterReference reference declaration name).Announces := by
  intro s
  rw [run_recordParameterReference]
  cases s.parameters.find? declaration with
  | none => exact .missing rfl rfl .nil
  | some index => exact .other rfl .nil

/-- A reference that resolves is recorded behind the warning that it lacks an index, if it does. -/
theorem recordTarget_announces (reference : Token) (target : Target) :
    (scope.recordTarget reference target).Announces := by
  unfold recordTarget
  split
  · exact .of_nil fun _ => rfl
  · exact .write rfl
  · exact .write rfl
  · exact .write rfl
  · exact scope.recordLocalReference_announces _ _ _
  · exact scope.recordParameterReference_announces _ _ _
  · exact scope.recordLocalReference_announces _ _ _
  · exact scope.recordLocalReference_announces _ _ _
  · exact scope.warn_announces rfl _
  · exact scope.warn_announces rfl _

/-- The visit of a reference announces a missing index of its variable. -/
theorem recordReference_announces (reference : Node) :
    (scope.recordReference reference).Announces := by
  unfold recordReference
  split
  · exact .write rfl
  · split
    · exact .fail _ _
    · exact scope.recordTarget_announces _ _

/-- The references of types lack no index, since they point at classes. -/
theorem recordTypeReference_announces (reference : Node) :
    (scope.recordTypeReference reference).Announces := by
  unfold recordTypeReference
  split
  · exact .fail _ _
  · split
    · exact .write rfl
    · exact .of_nil fun _ => rfl
  · exact .write rfl

/-- A variable is declared with an index. -/
theorem nameVariable_announces (declaration : Node) :
    (scope.nameVariable declaration).Announces := by
  intro s
  cases hname : declaration.nameToken? with
  | none =>
    rw [scope.run_nameVariable_of_none hname]
    exact .other rfl .nil
  | some name =>
    rw [scope.run_nameVariable hname]
    split
    · split
      · exact .other rfl (.other rfl .nil)
      · exact .other rfl .nil
    · exact .nil

/-- A parameter is declared with an index. -/
theorem nameParameter_announces (index : Nat) (p : Node) :
    (scope.nameParameter index p).Announces := by
  unfold nameParameter
  split
  · exact scope.warn_announces rfl _
  · exact Scan.Announces.bind (.of_nil fun _ => rfl) fun _ => .write rfl

/-- A marker concerns no missing index. -/
theorem switchRegion_announces (t : Token) : (scope.switchRegion t).Announces := by
  unfold switchRegion
  split
  · split
    · exact .of_nil fun _ => rfl
    · refine Scan.Announces.bind (.of_nil fun _ => rfl) fun state => ?_
      dsimp only
      split
      · exact Scan.Announces.bind (.write rfl) fun _ => .of_nil fun _ => rfl
      · exact .of_nil fun _ => rfl
  · exact .of_nil fun _ => rfl

/-- An element that is passed over is reported with a code of its own. -/
theorem passOver_announces (element : Node) : (scope.passOver element).Announces := by
  unfold passOver
  split <;> exact scope.warn_announces rfl _

/-- Every act announces a missing index right before the record. -/
theorem act_announces (a : WalkAct) : (scope.act a).Announces := by
  cases a with
  | token t => exact scope.switchRegion_announces t
  | reference reference => exact scope.recordReference_announces reference
  | typeReference reference => exact scope.recordTypeReference_announces reference
  | localVariable declaration => exact scope.nameVariable_announces declaration
  | passOver element => exact scope.passOver_announces element
  | parameter index p => exact scope.nameParameter_announces index p
  | seed indices => exact .of_nil fun _ => rfl

/-- A walk announces every missing index. -/
theorem walk_announces (n : Node) : (scope.walk n).Announces := by
  rw [walk_eq_acts]
  exact .forM _ fun a _ => scope.act_announces a

/-- The walk of a part of a declaration announces every missing index. -/
theorem walkPart_announces (n : Node) (kind : Kind) : (scope.walkPart n kind).Announces := by
  unfold walkPart
  split
  · exact scope.walk_announces _
  · exact .of_nil fun _ => rfl

/-- Recording the type of a declaration concerns no missing index. -/
theorem recordDeclaredType_announces (declaration : Node) :
    (scope.recordDeclaredType declaration).Announces := by
  rw [recordDeclaredType_eq_acts]
  exact .forM _ fun a _ => scope.act_announces a

/-- A parameter is recorded with its index, and its modifiers are walked as all code is. -/
theorem introduceParameter_announces (index : Nat) (p : Node) :
    (scope.introduceParameter index p).Announces := by
  refine (scope.walkPart_announces p .modifierList).bind fun _ => ?_
  refine (scope.recordDeclaredType_announces p).bind fun _ => ?_
  exact scope.nameParameter_announces index p

end Scope

/-! ### Declarations and files -/

namespace FileContext

variable (context : FileContext)

/-- The warning about a missing name concerns no index. -/
theorem warnNameless_announces {σ : Type} (n : Node) (what : String) :
    (context.warnNameless n what : Scan σ Unit).Announces :=
  .write rfl

/-- The code outside of methods announces every missing index. -/
theorem walkOutside_announces (owner : String) (parts : List Node) :
    (context.walkOutside owner fun scope => parts.forM scope.walk).Announces :=
  Scan.Announces.fresh (.forM _ fun part _ => Scope.walk_announces _ part) _

/-- The scan of a class announces every missing index. -/
theorem scanClass_announces (qualifier : Option String) (n : Node) :
    (context.scanClass qualifier n).Announces := by
  unfold scanClass
  split
  · exact context.warnNameless_announces n _
  · exact Scan.Announces.bind (.write rfl) fun _ => context.walkOutside_announces _ n.header

/-- The scan of a field announces every missing index. -/
theorem scanField_announces (owner : String) (n : Node) :
    (context.scanField owner n).Announces := by
  let scope : Scope := ⟨context, owner, .outsideMethod⟩
  unfold scanField
  refine Scan.Announces.fresh ?_ _
  refine (scope.walkPart_announces n .modifierList).bind fun _ => ?_
  refine (scope.recordDeclaredType_announces n).bind fun _ => ?_
  cases n.nameToken? with
  | none =>
    refine (context.warnNameless_announces n _).bind fun _ => ?_
    split
    · exact .of_nil fun _ => rfl
    · exact scope.walk_announces _
  | some name =>
    refine Scan.Announces.bind (.write rfl) fun _ => ?_
    split
    · exact .of_nil fun _ => rfl
    · exact scope.walk_announces _

/-- The scan of an enum constant announces every missing index. -/
theorem scanEnumConstant_announces (owner : String) (n : Node) :
    (context.scanEnumConstant owner n).Announces := by
  unfold scanEnumConstant
  split
  · exact context.warnNameless_announces n _
  · exact Scan.Announces.bind (.write rfl) fun _ => context.walkOutside_announces _ n.childNodes

/-- The walk of a method announces every missing index. -/
theorem walkMethod_announces (n : Node) (scope : Scope) : (walkMethod n scope).Announces := by
  refine (scope.walkPart_announces n .modifierList).bind fun _ => ?_
  refine (scope.walkPart_announces n .typeParameterList).bind fun _ => ?_
  refine (scope.recordDeclaredType_announces n).bind fun _ => ?_
  refine Scan.Announces.bind (.forM _ fun p _ => scope.introduceParameter_announces p.2 p.1)
    fun _ => ?_
  refine (scope.walkPart_announces n .throwsList).bind fun _ => ?_
  exact scope.walkPart_announces n .codeBlock

/-- The scan of a method announces every missing index. -/
theorem scanMethod_announces (owner : String) (n : Node) :
    (context.scanMethod owner n).Announces := by
  unfold scanMethod
  split
  · exact context.warnNameless_announces n _
  · split
    · exact .fail _ _
    · refine Scan.Announces.bind (.write rfl) fun _ => ?_
      exact (walkMethod_announces n _).fresh _

/-- The scan of any declaration announces every missing index. -/
theorem scanDeclaration_announces (d : Declaration) : (context.scanDeclaration d).Announces := by
  cases d with
  | classDecl qualifier n => exact context.scanClass_announces qualifier n
  | field owner n => exact context.scanField_announces owner n
  | enumConstant owner n => exact context.scanEnumConstant_announces owner n
  | method owner n => exact context.scanMethod_announces owner n
  | initializer owner n =>
    exact (Scope.walk_announces ⟨context, owner, .classInitializer⟩ n).fresh _

/-- The package has no index that could be missing. -/
theorem recordPackage_announces (root : Node) : (context.recordPackage root).Announces := by
  unfold recordPackage
  split
  · split
    · exact .write rfl
    · exact .of_nil fun _ => rfl
  · exact .of_nil fun _ => rfl

/-- The imports have no index that could be missing. -/
theorem recordImports_announces (root : Node) : (context.recordImports root).Announces := by
  unfold recordImports
  split
  · refine .forM _ fun statement _ => ?_
    unfold recordImport
    split
    · exact .write rfl
    · exact .of_nil fun _ => rfl
  · exact .of_nil fun _ => rfl

/-- Whatever the scan of a file writes, also if it fails, announces every missing index. -/
theorem scanRoot_announces (root : Node) : (context.scanRoot root).Announces := by
  unfold scanRoot
  split
  · exact .fail _ _
  · refine (context.recordPackage_announces root).bind fun _ => ?_
    refine (context.recordImports_announces root).bind fun _ => ?_
    exact .forM _ fun d _ => context.scanDeclaration_announces d

end FileContext

/-! ### Where an index can be missing -/

/-- The tokens of different nodes of a tree stand apart. -/
theorem Node.apart_of_ne {root m n : Node} {t u : Token} (hm : m ∈ root.descendants)
    (hn : n ∈ root.descendants) (hne : m ≠ n) (ht : t ∈ m.childTokens) (hu : u ∈ n.childTokens) :
    t.Apart u := by
  have hpairwise : (root.descendants.flatMap childTokens).Pairwise Token.Apart :=
    pairwise_apart root.perm_tokens.symm.subperm
  have hnodes := (List.pairwise_flatMap.1 hpairwise).2
  have : Std.Symm fun m n : Node => ∀ t ∈ m.childTokens, ∀ u ∈ n.childTokens, t.Apart u :=
    ⟨fun _ _ h u hu t ht => (h t ht u hu).symm⟩
  exact hnodes.forall hm hn hne t ht u hu

/-- A symbol without an index is named by a reference. -/
theorem Node.Names.exists_reference {resolver : Resolver} {root : Node} {x : Item}
    {identity : Identity} (h : root.Names resolver x identity)
    (hmissing : identity.missingIndexCode? ≠ none) :
    ∃ n ∈ root.descendants, n.kind = .reference ∧ ∃ t, n.referenceName? = some t ∧ x = .token t ∧
      ∃ target, resolver.target? n = some target ∧ target.RecordedAs identity := by
  cases h with
  | package hs hr => exact absurd rfl hmissing
  | imported hs hr => exact absurd rfl hmissing
  | declared h => cases h <;> exact absurd rfl hmissing
  | inCode h =>
    cases h with
    | reference hr hkind hname htarget hidentity =>
      exact ⟨_, hr, hkind, _, hname, rfl, _, htarget, hidentity⟩
    | declaration hd hname htext hindex =>
      have hsome : Option.isNone _ = false := Option.isNone_eq_false_iff.2 hindex
      refine absurd ?_ hmissing
      rw [Identity.missingIndexCode?, hsome]
      rfl

/-- In a file that is extracted successfully, the warnings that a local variable has no index are,
by their offsets and in their order, the records of local variables without an index, and the
warnings that a parameter has no index are the records of parameters without one. Only a reference
can lack an index: a record without one stands at the name of a reference that points at the
variable, and a record with the range of the name of a declared variable or parameter has one. -/
theorem extract_announces_missing_indices (file : String) (tree : Tree) (resolver : Resolver)
    (options : Options) (hok : (extract file tree resolver options).result = .ok ()) :
    let root := tree.root
    let e := extract file tree resolver options
    let context := FileContext.ofText file root.text resolver options
    (e.diagnostics.filter fun d => decide (d.code = .missingLocalIndex)).map Diagnostic.offset =
      (e.records.filter fun r =>
        decide (r.identity.missingIndexCode? = some .missingLocalIndex)).map
          (fun r => some r.start) ∧
    (e.diagnostics.filter fun d => decide (d.code = .missingParameterIndex)).map
        Diagnostic.offset =
      (e.records.filter fun r =>
        decide (r.identity.missingIndexCode? = some .missingParameterIndex)).map
          (fun r => some r.start) ∧
    (∀ r ∈ e.records, r.identity.missingIndexCode? ≠ none →
      ∃ n ∈ root.descendants, n.kind = .reference ∧ ∃ t, n.referenceName? = some t ∧
        r = context.recordAt t.span r.identity ∧
        ∃ target, resolver.target? n = some target ∧ target.RecordedAs r.identity) ∧
    ∀ v ∈ root.descendants, v.kind = .localVariable ∨ v.kind = .parameter →
      ∀ t, v.nameToken? = some t → t.text ≠ "" →
        ∀ r ∈ context.recordsAt e.records t, r.identity.missingIndexCode? = none := by
  intro root e context
  obtain ⟨hresult, hrecords⟩ := records_extract_of_ok hok
  have hdiagnostics : e.diagnostics =
      Journal.diagnostics ((context.scanRoot root).run ()).journal :=
    ExtractedFile.diagnostics_ofOutcome file _
  have hannounced := context.scanRoot_announces root ()
  have hreferences : ∀ r ∈ e.records, r.identity.missingIndexCode? ≠ none →
      ∃ n ∈ root.descendants, n.kind = .reference ∧ ∃ t, n.referenceName? = some t ∧
        r = context.recordAt t.span r.identity ∧
        ∃ target, resolver.target? n = some target ∧ target.RecordedAs r.identity := by
    intro r hr hmissing
    rw [hrecords] at hr
    obtain ⟨x, identity, hnames, rfl⟩ := context.scanRoot_namedIn root () r hr
    obtain ⟨n, hn, hkind, t, ht, rfl, htarget⟩ := hnames.exists_reference hmissing
    exact ⟨n, hn, hkind, t, ht, rfl, htarget⟩
  refine ⟨?_, ?_, hreferences, ?_⟩
  · rw [hrecords, hdiagnostics]
    exact hannounced.offsets_eq rfl
  · rw [hrecords, hdiagnostics]
    exact hannounced.offsets_eq rfl
  · intro v hv hdeclares t ht htext r hr
    obtain ⟨hmem, hrange⟩ := List.mem_filter.1 hr
    by_contra hmissing
    obtain ⟨n, hn, hkind, u, hu, hrecord, -⟩ := hreferences r hmem hmissing
    -- the name of the declaration and that of the reference belong to different nodes
    have hne : v ≠ n := by
      rintro rfl
      rcases hdeclares with h | h <;> exact absurd (hkind.symm.trans h) (by decide)
    have hbelow := (Node.mem_childTokens_of_nameToken? ht).1
    have hname := (List.mem_filter.1 (List.mem_of_getLast? hu)).1
    have hapart : t.Apart u := Node.apart_of_ne hv hn hne hbelow hname
    have hsame : (OffsetMap.ofText root.text options.encoding).range u.span =
        (OffsetMap.ofText root.text options.encoding).range t.span := by
      have hstart := of_decide_eq_true hrange
      rw [hrecord] at hstart
      exact hstart
    refine Node.range_ne_of_apart rfl options.encoding (x := .token u)
      (Node.token_mem_preorder hn hname) (Node.token_mem_preorder hv hbelow) htext ?_ hsame
    intro w hw
    rw [List.mem_singleton.1 hw]
    exact hapart.symm

/-- A method with the parameter `a` that declares the variable `b`. Its body refers to `b`, to the
variable `x` of another method, to the parameter `p` of another, and to `x` again. -/
def strayTree : Tree :=
  ⟨⟨0⟩, .sourceFile,
    [.node .classDecl
      [.token .ident "A",
        .node .method
          [.token .ident "m", .node .parameterList [.node .parameter [.token .ident "a"]],
            .node .codeBlock
              [.node .declarationStatement [.node .localVariable [.token .ident "b"]],
                .node .reference [.token .ident "b"], .node .reference [.token .ident "x"],
                .node .reference [.token .ident "p"], .node .reference [.token .ident "x"]]]]]⟩

/-- What the references of the method point at. -/
def strayBindings : Bindings :=
  let type : MethodType := ⟨[.primitive .int], .primitive .void⟩
  ((((Bindings.empty.insertMethod (.ofSize 1 1) type).insertReference
    (.ofSize 4 1) (.localVariable (.ofSize 3 1) "b")).insertReference
    (.ofSize 5 1) (.localVariable (.ofSize 20 1) "x")).insertReference
    (.ofSize 6 1) (.parameter (.ofSize 30 1) "p" .method)).insertReference
    (.ofSize 7 1) (.localVariable (.ofSize 20 1) "x")

/-- The references to the variable and the parameter of other methods are announced where they
stand, and the variable `b` does not lack an index where it is declared. -/
theorem extract_announces_missing_indices_stray :
    let e := extract "A.java" strayTree strayBindings.resolver {}
    e.result = .ok () ∧
    (e.diagnostics.filter fun d => decide (d.code = .missingLocalIndex)).map Diagnostic.offset =
      [some 5, some 7] ∧
    (e.diagnostics.filter fun d => decide (d.code = .missingParameterIndex)).map
      Diagnostic.offset = [some 6] ∧
    ⟨"A.java", 3, 4, .localVariable ⟨"A", ⟨"m", "(I)V"⟩, "b", some 0⟩⟩ ∈ e.records ∧
    ∀ r ∈ e.records, r.range = (3, 4) → r.identity.missingIndexCode? = none := by
  intro e
  have hok : e.result = .ok () := by decide +kernel
  have hlocals : (e.records.filter fun r =>
      decide (r.identity.missingIndexCode? = some .missingLocalIndex)).map
        (fun r => some r.start) = [some 5, some 7] := by decide +kernel
  have hparameters : (e.records.filter fun r =>
      decide (r.identity.missingIndexCode? = some .missingParameterIndex)).map
        (fun r => some r.start) = [some 6] := by decide +kernel
  obtain ⟨hlocal, hparameter, -, hdeclared⟩ :=
    extract_announces_missing_indices "A.java" strayTree strayBindings.resolver {} hok
  let declaration : Node := ⟨⟨0⟩, 3, .localVariable, [.token .ident "b"]⟩
  have hmem : declaration ∈ strayTree.root.descendants := by
    have hone : strayTree.root.descendantsOfKind .localVariable = [declaration] := rfl
    exact List.mem_of_mem_filter (hone ▸ List.mem_singleton_self declaration)
  refine ⟨hok, hlocal.trans hlocals, hparameter.trans hparameters, by decide +kernel, ?_⟩
  intro r hr hrange
  refine hdeclared declaration hmem (.inl rfl) ⟨3, .ident, "b"⟩ rfl (by decide) r ?_
  exact List.mem_filter.2 ⟨hr, decide_eq_true hrange⟩

end SymbolRanges

import Mathlib.Control.Monad.Basic
import SymbolRanges.Proofs.Extraction.Resolution

/-!
# When a file fails, and how it is reported

A file is reported completely or not at all. Its tree must be well formed, and then the extraction
succeeds exactly when everything that the classes reached from the root mention resolves.

The classes are those of `Node.ReachesClass`, the stretches of code of a class are those of
`Node.CodePart`, and the types of its declarations are those of `Node.TypePart`. All three are
read off the tree alone, without the order in which a file is scanned.
-/

set_option autoImplicit false

namespace SymbolRanges

/-! ### The positions of a class -/

/-- The classes reached from a node through class declarations that all have a name. -/
inductive Node.ReachesClass : Node → Node → Prop
  | child {n c : Node} (hc : c ∈ n.childrenOfKind .classDecl)
    (hname : c.nameToken?.isSome = true) : ReachesClass n c
  | through {n m c : Node} (hm : m ∈ n.childrenOfKind .classDecl)
    (hname : m.nameToken?.isSome = true) (hc : ReachesClass m c) : ReachesClass n c

/-- The stretches of code of a class. An enum constant or a method without a name has none. -/
inductive Node.CodePart (c : Node) : Node → Prop
  | header {part : Node} (h : part ∈ c.header) : CodePart c part
  | fieldModifiers {f part : Node} (hf : f ∈ c.childrenOfKind .field)
    (h : f.child? .modifierList = some part) : CodePart c part
  | fieldInitializer {f part : Node} (hf : f ∈ c.childrenOfKind .field)
    (h : f.initializer? = some part) : CodePart c part
  | enumConstant {e part : Node} (he : e ∈ c.childrenOfKind .enumConstant)
    (hname : e.nameToken?.isSome = true) (h : part ∈ e.childNodes) : CodePart c part
  | classInitializer {part : Node} (h : part ∈ c.childrenOfKind .classInitializer) :
    CodePart c part
  | method {m part : Node} {kind : Kind} (hm : m ∈ c.childrenOfKind .method)
    (hname : m.nameToken?.isSome = true)
    (hkind : kind ∈ [Kind.modifierList, .typeParameterList, .throwsList, .codeBlock])
    (h : m.child? kind = some part) : CodePart c part
  | parameterModifiers {m p part : Node} (hm : m ∈ c.childrenOfKind .method)
    (hname : m.nameToken?.isSome = true) (hp : p ∈ m.parameters)
    (h : p.child? .modifierList = some part) : CodePart c part

/-- The types of the declarations of a class: of its fields, of the results and parameters of its
methods with a name, and of the variables declared in its code. -/
inductive Node.TypePart (c : Node) : Node → Prop
  | field {f type : Node} (hf : f ∈ c.childrenOfKind .field) (h : f.child? .type = some type) :
    TypePart c type
  | result {m type : Node} (hm : m ∈ c.childrenOfKind .method)
    (hname : m.nameToken?.isSome = true) (h : m.child? .type = some type) : TypePart c type
  | parameter {m p type : Node} (hm : m ∈ c.childrenOfKind .method)
    (hname : m.nameToken?.isSome = true) (hp : p ∈ m.parameters)
    (h : p.child? .type = some type) : TypePart c type
  | localVariable {part d v type : Node} (hpart : c.CodePart part) (hd : d ∈ part.descendants)
    (hv : v ∈ d.variableNodes) (h : v.child? .type = some type) : TypePart c type

/-- Everything that a class mentions resolves, but for what its nested classes mention. -/
structure Resolver.ResolvesClass (resolver : Resolver) (c : Node) : Prop where
  /-- The types of every method with a name are known. -/
  methodTypes : ∀ m ∈ c.childrenOfKind .method, m.nameToken?.isSome = true →
    (resolver.methodType? m).isSome = true
  /-- Every reference with a name in its code resolves. -/
  names : ∀ part, c.CodePart part → ∀ r ∈ part.descendants, r.kind = .reference →
    r.referenceName?.isSome = true → resolver.Resolves r
  /-- Every reference that a type of its declarations is made of resolves. -/
  types : ∀ type, c.TypePart type → ∀ r, type.TypeReaches resolver.isClass r → resolver.Resolves r

namespace Resolver

variable {resolver : Resolver}

/-- The code of a class that resolves does. -/
theorem ResolvesClass.code {c part : Node} (hc : resolver.ResolvesClass c)
    (hpart : c.CodePart part) : resolver.ResolvesCode part := by
  refine ⟨hc.names part hpart, ?_⟩
  intro d hd v hv type htype
  exact hc.types type (.localVariable hpart hd hv htype)

/-- The fields of a class that resolves do. -/
theorem ResolvesClass.field {c f : Node} (hc : resolver.ResolvesClass c)
    (hf : f ∈ c.childrenOfKind .field) : resolver.ResolvesField f :=
  ⟨fun _ h => hc.code (.fieldModifiers hf h), fun _ h => hc.types _ (.field hf h),
    fun _ h => hc.code (.fieldInitializer hf h)⟩

/-- The methods with a name of a class that resolves do. -/
theorem ResolvesClass.method {c m : Node} (hc : resolver.ResolvesClass c)
    (hm : m ∈ c.childrenOfKind .method) (hname : m.nameToken?.isSome = true) :
    resolver.ResolvesMethod m := by
  have hpart {kind : Kind}
      (hkind : kind ∈ [Kind.modifierList, .typeParameterList, .throwsList, .codeBlock]) :
      resolver.ResolvesPart m kind := fun _ h => hc.code (.method hm hname hkind h)
  refine ⟨hc.methodTypes m hm hname, hpart (by simp), hpart (by simp), ?_, ?_, hpart (by simp),
    hpart (by simp)⟩
  · exact fun _ h => hc.types _ (.result hm hname h)
  · intro p hp
    exact ⟨fun _ h => hc.code (.parameterModifiers hm hname hp h),
      fun _ h => hc.types _ (.parameter hm hname hp h)⟩

/-- A class resolves when its header and each of its members but the nested classes do. -/
theorem resolvesClass_iff (resolver : Resolver) (c : Node) :
    resolver.ResolvesClass c ↔
      (∀ part ∈ c.header, resolver.ResolvesCode part) ∧
      (∀ f ∈ c.childrenOfKind .field, resolver.ResolvesField f) ∧
      (∀ e ∈ c.childrenOfKind .enumConstant, e.nameToken?.isSome = true →
        ∀ child ∈ e.childNodes, resolver.ResolvesCode child) ∧
      (∀ m ∈ c.childrenOfKind .method, m.nameToken?.isSome = true → resolver.ResolvesMethod m) ∧
      ∀ i ∈ c.childrenOfKind .classInitializer, resolver.ResolvesCode i := by
  constructor
  · intro hc
    exact ⟨fun _ h => hc.code (.header h), fun _ hf => hc.field hf,
      fun _ he hname _ h => hc.code (.enumConstant he hname h),
      fun _ hm hname => hc.method hm hname,
      fun _ h => hc.code (.classInitializer h)⟩
  · rintro ⟨hheader, hfields, hconstants, hmethods, hinitializers⟩
    have hcode (part : Node) (hpart : c.CodePart part) : resolver.ResolvesCode part := by
      cases hpart with
      | header h => exact hheader _ h
      | fieldModifiers hf h => exact (hfields _ hf).1 _ h
      | fieldInitializer hf h => exact (hfields _ hf).2.2 _ h
      | enumConstant he hname h => exact hconstants _ he hname _ h
      | classInitializer h => exact hinitializers _ h
      | method hm hname hkind h =>
        obtain ⟨-, hmodifiers, hparameters, -, -, hthrows, hbody⟩ := hmethods _ hm hname
        simp only [List.mem_cons, List.not_mem_nil, or_false] at hkind
        rcases hkind with rfl | rfl | rfl | rfl
        · exact hmodifiers _ h
        · exact hparameters _ h
        · exact hthrows _ h
        · exact hbody _ h
      | parameterModifiers hm hname hp h =>
        obtain ⟨-, -, -, -, hparameters, -, -⟩ := hmethods _ hm hname
        exact (hparameters _ hp).1 _ h
    refine ⟨fun m hm hname => (hmethods m hm hname).1, fun part hpart => (hcode part hpart).1, ?_⟩
    intro type htype
    cases htype with
    | field hf h => exact (hfields _ hf).2.1 _ h
    | result hm hname h =>
      obtain ⟨-, -, -, hresult, -, -, -⟩ := hmethods _ hm hname
      exact hresult _ h
    | parameter hm hname hp h =>
      obtain ⟨-, -, -, -, hparameters, -, -⟩ := hmethods _ hm hname
      exact (hparameters _ hp).2 _ h
    | localVariable hpart hd hv h => exact (hcode _ hpart).2 _ hd _ hv _ h

end Resolver

/-! ### The declarations of the classes reached -/

/-- The kind of the nodes that declare members of a kind. -/
def MemberKind.toKind : MemberKind → Kind
  | .field => .field
  | .enumConstant => .enumConstant
  | .method => .method
  | .initializer => .classInitializer
  | .classDecl => .classDecl

/-- Each kind of member has one kind of element, and no two of them share it. -/
theorem MemberKind.ofKind?_eq_some_iff {kind : Kind} {memberKind : MemberKind} :
    MemberKind.ofKind? kind = some memberKind ↔ kind = memberKind.toKind := by
  constructor
  · intro h
    unfold MemberKind.ofKind? at h
    split at h <;> cases h <;> rfl
  · rintro rfl
    cases memberKind <;> rfl

/-- The members of one kind are the children of the kind. -/
theorem Node.mem_members_iff_toKind {n m : Node} {memberKind : MemberKind} :
    (memberKind, m) ∈ n.members ↔ m ∈ n.childrenOfKind memberKind.toKind := by
  unfold members
  simp only [childrenOfKind, List.mem_filter, decide_eq_true_eq, List.mem_filterMap,
    Option.map_eq_some_iff, Prod.mk.injEq, MemberKind.ofKind?_eq_some_iff]
  constructor
  · rintro ⟨c, hc, kind, hkind, rfl, rfl⟩
    exact ⟨hc, hkind⟩
  · rintro ⟨hm, hkind⟩
    exact ⟨m, hm, memberKind, hkind, rfl, rfl⟩

namespace Resolver

variable (resolver : Resolver)

/-- What a class and its members declare resolves when the class does and so do the declarations
of its nested classes; a class without a name declares nothing. -/
theorem forall_mem_classDeclarations_iff (qualifier : Option String) (n : Node) :
    (∀ d ∈ n.classDeclarations qualifier, resolver.ResolvesDeclaration d) ↔
      ∀ name, n.nameToken? = some name → resolver.ResolvesClass n ∧
        ∀ c ∈ n.childrenOfKind .classDecl,
          ∀ d ∈ c.classDeclarations (some (qualify qualifier name.text)),
            resolver.ResolvesDeclaration d := by
  rw [Node.classDeclarations_eq, List.forall_mem_cons]
  cases hname : n.nameToken? with
  | none => simp [ResolvesDeclaration, hname]
  | some name =>
    simp only [Option.some.injEq, forall_eq']
    rw [resolvesClass_iff]
    constructor
    · rintro ⟨hheader, hmembers⟩
      have hmember (memberKind : MemberKind) {m : Node}
          (hm : m ∈ n.childrenOfKind memberKind.toKind) {d : Declaration}
          (hd : d ∈ Node.memberDeclarations (qualify qualifier name.text) (memberKind, m)) :
          resolver.ResolvesDeclaration d :=
        hmembers d (List.mem_flatMap.2 ⟨_, Node.mem_members_iff_toKind.2 hm, hd⟩)
      refine ⟨⟨hheader (by simp [hname]), ?_, ?_, ?_, ?_⟩, ?_⟩
      · exact fun f hf => hmember .field hf (List.mem_singleton_self _)
      · exact fun e he => hmember .enumConstant he (List.mem_singleton_self _)
      · exact fun m hm => hmember .method hm (List.mem_singleton_self _)
      · exact fun i hi => hmember .initializer hi (List.mem_singleton_self _)
      · exact fun c hc d hd => hmember .classDecl hc hd
    · rintro ⟨⟨hheader, hfields, hconstants, hmethods, hinitializers⟩, hclasses⟩
      refine ⟨fun _ => hheader, ?_⟩
      intro d hd
      obtain ⟨⟨memberKind, m⟩, hm, hd⟩ := List.mem_flatMap.1 hd
      have hchild : m ∈ n.childrenOfKind memberKind.toKind := Node.mem_members_iff_toKind.1 hm
      cases memberKind with
      | field => exact List.mem_singleton.1 hd ▸ hfields m hchild
      | enumConstant => exact List.mem_singleton.1 hd ▸ hconstants m hchild
      | method => exact List.mem_singleton.1 hd ▸ hmethods m hchild
      | initializer => exact List.mem_singleton.1 hd ▸ hinitializers m hchild
      | classDecl => exact hclasses m hchild d hd

/-- What a class with a name and its members declare resolves when the class does and so does
every class reached from it. -/
theorem forall_mem_classDeclarations_iff_reachesClass (n : Node) (qualifier : Option String) :
    (∀ d ∈ n.classDeclarations qualifier, resolver.ResolvesDeclaration d) ↔
      (n.nameToken?.isSome = true → resolver.ResolvesClass n ∧
        ∀ c, n.ReachesClass c → resolver.ResolvesClass c) := by
  induction n using Node.induction generalizing qualifier with
  | step n ih =>
    rw [forall_mem_classDeclarations_iff]
    cases hname : n.nameToken? with
    | none => simp
    | some name =>
      simp only [Option.some.injEq, forall_eq', Option.isSome_some, forall_const]
      have hnested (c : Node) (hc : c ∈ n.childrenOfKind .classDecl) :=
        ih c (Node.mem_childNodes_of_mem_childrenOfKind hc)
          (some (qualify qualifier name.text))
      constructor
      · rintro ⟨hn, hclasses⟩
        refine ⟨hn, ?_⟩
        intro c hc
        cases hc with
        | child hc hcname => exact ((hnested c hc).1 (hclasses c hc) hcname).1
        | through hm hmname hc => exact ((hnested _ hm).1 (hclasses _ hm) hmname).2 c hc
      · rintro ⟨hn, hreached⟩
        refine ⟨hn, ?_⟩
        intro c hc
        rw [hnested c hc]
        intro hcname
        exact ⟨hreached c (.child hc hcname), fun m hm => hreached m (.through hc hcname hm)⟩

/-- What a file declares resolves when every class reached from its root does. -/
theorem forall_mem_declarations_iff (root : Node) :
    (∀ d ∈ root.declarations, resolver.ResolvesDeclaration d) ↔
      ∀ c, root.ReachesClass c → resolver.ResolvesClass c := by
  unfold Node.declarations
  constructor
  · intro h c hc
    have hclass (m : Node) (hm : m ∈ root.childrenOfKind .classDecl) :=
      (resolver.forall_mem_classDeclarations_iff_reachesClass m _).1 fun d hd =>
        h d (List.mem_flatMap.2 ⟨m, hm, hd⟩)
    cases hc with
    | child hc hname => exact (hclass c hc hname).1
    | through hm hname hc => exact (hclass _ hm hname).2 c hc
  · intro h d hd
    obtain ⟨m, hm, hd⟩ := List.mem_flatMap.1 hd
    refine (resolver.forall_mem_classDeclarations_iff_reachesClass m _).2 ?_ d hd
    intro hname
    exact ⟨h m (.child hm hname), fun c hc => h c (.through hm hname hc)⟩

end Resolver

/-! ### Malformed trees -/

namespace Node

/-- A tree is well formed when no element of it is an error and its root is a file. -/
theorem malformation?_eq_none_iff (root : Node) :
    root.malformation? = none ↔
      (∀ item ∈ root.preorder, item.kind ≠ .error) ∧ root.kind = .sourceFile := by
  unfold malformation?
  split
  · next item h =>
    have hkind := List.find?_some h
    have hitem := List.mem_of_find?_eq_some h
    constructor
    · intro hnone
      cases hnone
    · rintro ⟨hall, -⟩
      exact absurd (of_decide_eq_true hkind) (hall item hitem)
  · next h =>
    have hall : ∀ item ∈ root.preorder, item.kind ≠ .error := by
      intro item hitem
      simpa using List.find?_eq_none.1 h item hitem
    by_cases hroot : root.kind = .sourceFile
    · exact iff_of_true (if_pos hroot) ⟨hall, hroot⟩
    · simp [hroot]

/-- The first error in pre-order shows that a tree is malformed. -/
theorem malformation?_of_first_error {root : Node} {before after : List Item} {item : Item}
    (hsplit : root.preorder = before ++ item :: after) (hitem : item.kind = .error)
    (hbefore : ∀ earlier ∈ before, earlier.kind ≠ .error) :
    root.malformation? = some (.errorElement, item.start) := by
  have hfind : root.preorder.find? (fun item => decide (item.kind = .error)) = some item := by
    rw [hsplit, List.find?_append, List.find?_cons, hitem]
    have hnone : before.find? (fun item => decide (item.kind = .error)) = none := by
      rw [List.find?_eq_none]
      intro earlier hearlier
      simpa using hbefore earlier hearlier
    rw [hnone]
    rfl
  unfold malformation?
  rw [hfind]

end Node

/-- Every scan of a file decides something, and fails in the name of the file only. -/
theorem FileContext.exists_scanRoot_decides (context : FileContext) (root : Node) :
    ∃ P, (context.scanRoot root).Decides (fun failure => failure.file = context.file) P := by
  cases h : root.malformation? with
  | none => exact ⟨_, (context.scanRoot_decides_of_wellFormed h).mono fun _ hf => hf.1⟩
  | some found =>
    obtain ⟨malformation, position⟩ := found
    refine ⟨False, ?_⟩
    have hfail : context.scanRoot root = context.failMalformed malformation position := by
      unfold scanRoot
      rw [h]
    rw [hfail]
    apply Scan.Decides.fail
    rfl

/-! ### What an extraction yields -/

namespace ExtractedFile

variable (file : String) (o : Outcome Unit Unit)

/-- An extraction ends as its scan does. -/
@[simp] theorem result_ofOutcome : (ofOutcome file o).result = o.result := by
  unfold ofOutcome
  split <;> simp [*]

/-- An extraction reports all diagnostics of its journal. -/
@[simp] theorem diagnostics_ofOutcome :
    (ofOutcome file o).diagnostics = Journal.diagnostics o.journal := by
  unfold ofOutcome
  split <;> rfl

variable {file o}

/-- A scan that stops leaves no records. -/
theorem records_ofOutcome_of_error {stop : Stop} (h : o.result = .error stop) :
    (ofOutcome file o).records = [] := by
  unfold ofOutcome
  cases stop <;> simp [h]

/-- A scan that gives a value leaves all the records of its journal. -/
theorem records_ofOutcome_of_ok (h : o.result = .ok ()) :
    (ofOutcome file o).records = Journal.records o.journal := by
  unfold ofOutcome
  rw [h]

end ExtractedFile

section Scanned

variable {file : String} {tree : Tree} {resolver : Resolver} {options : Options}

/-- A file that succeeds has been scanned to the end, and has all the records of the scan. -/
theorem records_extract_of_ok (h : (extract file tree resolver options).result = .ok ()) :
    let context := FileContext.ofText file tree.root.text resolver options
    let scanned := (context.scanRoot tree.root).run ()
    scanned.result = .ok () ∧
      (extract file tree resolver options).records = Journal.records scanned.journal := by
  intro context scanned
  have hscanned : scanned.result = .ok () :=
    (ExtractedFile.result_ofOutcome file scanned).symm.trans h
  exact ⟨hscanned, ExtractedFile.records_ofOutcome_of_ok hscanned⟩

/-- An extraction that fails has no records. -/
theorem records_extract_of_error {stop : Stop}
    (h : (extract file tree resolver options).result = .error stop) :
    (extract file tree resolver options).records = [] :=
  ExtractedFile.records_ofOutcome_of_error ((ExtractedFile.result_ofOutcome file _).symm.trans h)

end Scanned

/-- A file with a class that lacks a name, and a class `A` with a method `m` whose body is `x`. -/
def sampleTree : Tree :=
  ⟨⟨0⟩, .sourceFile,
    [.node .classDecl [.token .classKw "class"],
      .node .classDecl
        [.token .ident "A",
          .node .method
            [.token .ident "m", .node .codeBlock [.node .reference [.token .ident "x"]]]]]⟩

/-- What is known about the sample: the types of its method, but not what `x` is. -/
def sampleMethods : Bindings :=
  Bindings.empty.insertMethod (.ofSize 6 1) ⟨[], .primitive .void⟩

/-- All there is to know about the sample: `x` is a field. -/
def sampleBindings : Bindings :=
  sampleMethods.insertReference (.ofSize 7 1) (.field "A" "x")

section Extract

variable (file : String) (tree : Tree) (resolver : Resolver) (options : Options)

/-- A file that fails has no records, and its last diagnostic, the only error, says where and why
it failed. A file that succeeds has no error among its diagnostics. -/
theorem extract_reports_completely_or_not_at_all :
    (∀ failure, (extract file tree resolver options).result = .error (.failed failure) →
      (extract file tree resolver options).records = [] ∧ failure.file = file ∧
      ∃ warnings last,
        (extract file tree resolver options).diagnostics = warnings ++ [last] ∧
        (∀ d ∈ warnings, d.severity ≠ .error) ∧ last.severity = .error ∧
        last.file = failure.file ∧ last.offset = some failure.offset ∧
        match failure with
        | .unresolvedReference .. => last.code.text = "E0001"
        | .unresolvedMethodType .. => last.code.text = "E0002"
        | .malformedTree .. => last.code.text = "E0003") ∧
    ((extract file tree resolver options).result = .ok () →
      ∀ d ∈ (extract file tree resolver options).diagnostics, d.severity ≠ .error) := by
  let context := FileContext.ofText file tree.root.text resolver options
  obtain ⟨P, hP⟩ := context.exists_scanRoot_decides tree.root
  have hrun := hP ()
  unfold extract
  dsimp only
  rw [ExtractedFile.result_ofOutcome, ExtractedFile.diagnostics_ofOutcome]
  unfold Outcome.Agrees at hrun
  constructor
  · intro failure hfailure
    rw [hfailure] at hrun
    obtain ⟨-, hfile, warnings, message, hdiagnostics, hwarnings⟩ := hrun
    refine ⟨ExtractedFile.records_ofOutcome_of_error hfailure, hfile, warnings,
      failure.diagnostic message, hdiagnostics, ?_, rfl, rfl, rfl, ?_⟩
    · intro d hd
      rw [hwarnings d hd]
      decide
    · cases failure <;> rfl
  · intro hok d hd
    rw [hok] at hrun
    rw [hrun.2 d hd]
    decide

/-- At an unknown name the sample fails with its last diagnostic, and else it has no error. -/
theorem extract_reports_completely_or_not_at_all_sample :
    (∃ warnings last,
      (extract "A.java" sampleTree sampleMethods.resolver {}).diagnostics = warnings ++ [last] ∧
      (∀ d ∈ warnings, d.severity ≠ .error) ∧ last.severity = .error ∧
      last.offset = some 7 ∧ last.code.text = "E0001") ∧
    ∀ d ∈ (extract "A.java" sampleTree sampleBindings.resolver {}).diagnostics,
      d.severity ≠ .error := by
  constructor
  · have hfailed : (extract "A.java" sampleTree sampleMethods.resolver {}).result =
        .error (.failed (.unresolvedReference "A.java" "A" ⟨"m", "()V"⟩ "x" 7)) := by
      decide +kernel
    obtain ⟨-, -, warnings, last, hsplit, hwarnings, hlast, -, hoffset, hcode⟩ :=
      (extract_reports_completely_or_not_at_all "A.java" sampleTree sampleMethods.resolver {}).1
        _ hfailed
    exact ⟨warnings, last, hsplit, hwarnings, hlast, hoffset, hcode⟩
  · exact (extract_reports_completely_or_not_at_all "A.java" sampleTree
      sampleBindings.resolver {}).2 (by decide +kernel)

/-- An extraction in which no counter is used up fails for its tree exactly when the tree is
malformed, at the first error in pre-order if there is one. A well-formed tree succeeds exactly
when everything that the classes reached from its root mention resolves. -/
theorem extract_failed_iff
    (hcount : (extract file tree resolver options).result ≠ .error .indexOverflow) :
    ((∃ offset, (extract file tree resolver options).result =
        .error (.failed (.malformedTree file offset))) ↔
      (∃ item ∈ tree.root.preorder, item.kind = .error) ∨ tree.root.kind ≠ .sourceFile) ∧
    (∀ before item after, tree.root.preorder = before ++ item :: after → item.kind = .error →
      (∀ earlier ∈ before, earlier.kind ≠ .error) →
      (extract file tree resolver options).result = .error (.failed (.malformedTree file
        ((OffsetMap.ofText tree.root.text options.encoding).offset item.start)))) ∧
    ((∀ item ∈ tree.root.preorder, item.kind ≠ .error) → tree.root.kind = .sourceFile →
      ((extract file tree resolver options).result = .ok () ↔
        ∀ c, tree.root.ReachesClass c → resolver.ResolvesClass c)) := by
  let context := FileContext.ofText file tree.root.text resolver options
  have hresult : (extract file tree resolver options).result =
      ((context.scanRoot tree.root).run ()).result := ExtractedFile.result_ofOutcome file _
  have hmalformed {malformation : Malformation} {position : Nat}
      (h : tree.root.malformation? = some (malformation, position)) :
      (extract file tree resolver options).result =
        .error (.failed (.malformedTree file (context.offsets.offset position))) := by
    rw [hresult, context.run_scanRoot_of_malformed h]
    rfl
  have hwell (h : tree.root.malformation? = none) :=
    context.scanRoot_decides_of_wellFormed h ()
  rw [hresult] at hcount
  refine ⟨?_, ?_, ?_⟩
  · have hiff : ((∃ item ∈ tree.root.preorder, item.kind = .error) ∨
        tree.root.kind ≠ .sourceFile) ↔ ¬ tree.root.malformation? = none := by
      rw [Node.malformation?_eq_none_iff]
      grind
    rw [hiff]
    constructor
    · rintro ⟨offset, hoffset⟩ hnone
      -- a well-formed tree fails at a reference or a method, and not for its tree
      have hrun := hwell hnone
      unfold Outcome.Agrees at hrun
      rw [← hresult, hoffset] at hrun
      exact hrun.2.1.2 rfl
    · intro hsome
      obtain ⟨⟨malformation, position⟩, h⟩ := Option.ne_none_iff_exists'.1 hsome
      exact ⟨_, hmalformed h⟩
  · intro before item after hsplit hitem hbefore
    exact hmalformed (Node.malformation?_of_first_error hsplit hitem hbefore)
  · intro hitems hroot
    have hrun := hwell ((Node.malformation?_eq_none_iff _).2 ⟨hitems, hroot⟩)
    have hclasses := resolver.forall_mem_declarations_iff tree.root
    unfold Outcome.Agrees at hrun
    rw [hresult]
    split at hrun
    · next h => exact iff_of_true h (hclasses.1 hrun.1)
    · next h => exact iff_of_false (by simp [h]) fun hall => hrun.1 (hclasses.2 hall)
    · next h => exact absurd h hcount

/-- The sample succeeds when all is known, so every class reached from its root resolves; without
the answer for `x` some class does not. -/
theorem extract_failed_iff_sample :
    (∀ c, sampleTree.root.ReachesClass c → sampleBindings.resolver.ResolvesClass c) ∧
    ¬ ∀ c, sampleTree.root.ReachesClass c → sampleMethods.resolver.ResolvesClass c := by
  have hitems : ∀ item ∈ sampleTree.root.preorder, item.kind ≠ .error := by decide +kernel
  have hknown := (extract_failed_iff "A.java" sampleTree sampleBindings.resolver {}
    (by decide +kernel)).2.2 hitems rfl
  have hunknown := (extract_failed_iff "A.java" sampleTree sampleMethods.resolver {}
    (by decide +kernel)).2.2 hitems rfl
  refine ⟨hknown.1 (by decide +kernel), ?_⟩
  rw [← hunknown]
  decide +kernel

end Extract

end SymbolRanges

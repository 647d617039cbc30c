import SymbolRanges.Proofs.Extraction.Comparison
import SymbolRanges.Proofs.Extraction.Coverage
import SymbolRanges.Proofs.Scan.Ledger
import SymbolRanges.Proofs.Walk.Acts

/-!
# Members on their own

The classes and members of a file are extracted one after the other into one ledger, which holds
the records and the diagnostics of the file so far. `FileContext.extractClass` is this recursion,
with the ledger handed from member to member and kept when a member fails, and
`FileContext.perform_forM_classDeclarations` says that it is what a file performs.

No extraction reads the ledger. The acts of a walk do not (`Scope.act_ignoresLedger`), so walks and
the extractions of members do not, and by recursion over its members the extraction of a class does
not (`FileContext.independent_extractClass`). Each stretch of code is walked afresh, so that nothing
but the ledger passes from one member to the next. `members_are_extracted_independently` is the
result for classes, for members and for whole files.
-/

set_option autoImplicit false

namespace SymbolRanges

open LedgerM (perform IgnoresLedger)

/-! ### Walks ignore the ledger -/

/-- Recording a symbol does not depend on the ledger. -/
theorem FileContext.record_ignoresLedger {σ : Type} (context : FileContext) (span : Span)
    (identity : Identity) : IgnoresLedger (context.record span identity : Scan σ Unit) := .write _

/-- Reporting a missing name does not depend on the ledger. -/
theorem FileContext.warnNameless_ignoresLedger {σ : Type} (context : FileContext) (n : Node)
    (what : String) : IgnoresLedger (context.warnNameless n what : Scan σ Unit) := .write _

namespace Scope

variable (scope : Scope)

/-- Reporting a warning does not depend on the ledger. -/
theorem warn_ignoresLedger (position : Nat) (warning : Warning) :
    IgnoresLedger (scope.warn position warning) := .write _

/-- Failing at a reference does not depend on the ledger. -/
theorem failUnresolved_ignoresLedger (reference : Node) :
    IgnoresLedger (scope.failUnresolved reference) := .fail _ _

/-- Recording a reference of a declared type does not depend on the ledger. -/
theorem recordTypeReference_ignoresLedger (reference : Node) :
    IgnoresLedger (scope.recordTypeReference reference) := by
  unfold recordTypeReference
  split
  · exact scope.failUnresolved_ignoresLedger reference
  · split
    · exact scope.record_ignoresLedger _ _
    · exact .pure ()
  · exact .write _

/-- Handing out an index does not depend on the ledger. -/
theorem assignIndex_ignoresLedger (name : Token) : IgnoresLedger (scope.assignIndex name) := by
  refine .bind .get fun state => ?_
  split
  · exact .stop _
  · refine .bind (.modify _) fun _ => ?_
    dsimp only
    split
    · exact .bind (scope.warn_ignoresLedger _ _) fun _ => .pure _
    · exact .pure _

/-- Recording a reference to a local variable does not depend on the ledger. -/
theorem recordLocalReference_ignoresLedger (reference : Token) (declaration : Span)
    (name : String) : IgnoresLedger (scope.recordLocalReference reference declaration name) := by
  refine .bind .get fun state => ?_
  dsimp only
  split
  · exact .bind (scope.warn_ignoresLedger _ _) fun _ => scope.record_ignoresLedger _ _
  · exact scope.record_ignoresLedger _ _

/-- Recording a reference to a parameter does not depend on the ledger. -/
theorem recordParameterReference_ignoresLedger (reference : Token) (declaration : Span)
    (name : String) :
    IgnoresLedger (scope.recordParameterReference reference declaration name) := by
  refine .bind .get fun state => ?_
  dsimp only
  split
  · exact .bind (scope.warn_ignoresLedger _ _) fun _ => scope.record_ignoresLedger _ _
  · exact scope.record_ignoresLedger _ _

/-- Recording a reference does not depend on the ledger, whatever it points at. -/
theorem recordReference_ignoresLedger (reference : Node) :
    IgnoresLedger (scope.recordReference reference) := by
  unfold recordReference
  split
  · exact .write _
  · next name _ =>
    split
    · exact scope.failUnresolved_ignoresLedger reference
    · unfold recordTarget
      split
      · exact .pure ()
      · exact scope.record_ignoresLedger _ _
      · exact scope.record_ignoresLedger _ _
      · exact scope.record_ignoresLedger _ _
      · exact scope.recordLocalReference_ignoresLedger _ _ _
      · exact scope.recordParameterReference_ignoresLedger _ _ _
      · exact scope.recordLocalReference_ignoresLedger _ _ _
      · exact scope.recordLocalReference_ignoresLedger _ _ _
      · exact scope.warn_ignoresLedger _ _
      · exact scope.warn_ignoresLedger _ _

/-- Declaring a parameter of the method does not depend on the ledger. -/
theorem nameParameter_ignoresLedger (index : Nat) (p : Node) :
    IgnoresLedger (scope.nameParameter index p) := by
  unfold nameParameter
  split
  · exact scope.warn_ignoresLedger _ _
  · exact .bind (.modify _) fun _ => scope.record_ignoresLedger _ _

/-- No act of a walk depends on the ledger. -/
theorem act_ignoresLedger (a : WalkAct) : IgnoresLedger (scope.act a) := by
  cases a with
  | token t =>
    show IgnoresLedger (scope.switchRegion t)
    unfold switchRegion
    split
    · split
      · exact .pure ()
      · refine .bind .get fun state => ?_
        dsimp only
        split
        · exact .bind (.write _) fun _ => .modify _
        · exact .modify _
    · exact .pure ()
  | reference reference => exact scope.recordReference_ignoresLedger reference
  | typeReference reference => exact scope.recordTypeReference_ignoresLedger reference
  | localVariable declaration =>
    show IgnoresLedger (scope.nameVariable declaration)
    unfold nameVariable
    split
    · exact scope.warn_ignoresLedger _ _
    · exact .bind (scope.assignIndex_ignoresLedger _) fun _ => scope.record_ignoresLedger _ _
  | passOver element =>
    show IgnoresLedger (scope.passOver element)
    unfold passOver
    split <;> exact scope.warn_ignoresLedger _ _
  | parameter index p => exact scope.nameParameter_ignoresLedger index p
  | seed indices => exact .modify _

/-- No step of a walk depends on the ledger. -/
theorem perform_ignoresLedger (step : WalkStep) : IgnoresLedger (scope.perform step) := by
  cases step with
  | visit item =>
    show IgnoresLedger (scope.visit item)
    rw [visit_eq_acts]
    exact .forM scope.act_ignoresLedger _
  | typeReference reference => exact scope.recordTypeReference_ignoresLedger reference
  | parameter index p => exact scope.nameParameter_ignoresLedger index p

/-- A walk does not depend on the ledger. -/
theorem walk_ignoresLedger (n : Node) : IgnoresLedger (scope.walk n) := by
  rw [walk_eq]
  exact .forM scope.perform_ignoresLedger _

/-- A walk through a part of a construct does not depend on the ledger. -/
theorem walkPart_ignoresLedger (n : Node) (kind : Kind) :
    IgnoresLedger (scope.walkPart n kind) := by
  rw [walkPart_eq]
  exact .forM scope.perform_ignoresLedger _

/-- Recording the type of a declaration does not depend on the ledger. -/
theorem recordDeclaredType_ignoresLedger (declaration : Node) :
    IgnoresLedger (scope.recordDeclaredType declaration) := by
  rw [recordDeclaredType_eq]
  exact .forM scope.perform_ignoresLedger _

end Scope

/-! ### Members ignore the ledger -/

namespace FileContext

variable (context : FileContext)

/-- A walk of its own does not depend on the ledger if its steps do not. -/
theorem walkIn_ignoresLedger (className : String) (method : MethodLabel)
    {steps : Scope → Walk Unit} (h : ∀ scope, IgnoresLedger (steps scope)) :
    IgnoresLedger (context.walkIn className method steps) := .fresh (h _) _

/-- The name and the header of a class are extracted whatever the ledger holds. -/
theorem scanClass_ignoresLedger (qualifier : Option String) (n : Node) :
    IgnoresLedger (context.scanClass qualifier n) := by
  unfold scanClass
  split
  · exact context.warnNameless_ignoresLedger _ _
  · exact .bind (context.record_ignoresLedger _ _) fun _ =>
      context.walkIn_ignoresLedger _ _ fun scope => .forM scope.walk_ignoresLedger _

/-- A field is extracted whatever the ledger holds. -/
theorem scanField_ignoresLedger (owner : String) (n : Node) :
    IgnoresLedger (context.scanField owner n) := by
  unfold scanField walkOutside
  refine context.walkIn_ignoresLedger _ _ fun scope => ?_
  refine .bind (scope.walkPart_ignoresLedger _ _) fun _ =>
    .bind (scope.recordDeclaredType_ignoresLedger _) fun _ => ?_
  dsimp only
  split
  · refine .bind (context.warnNameless_ignoresLedger _ _) fun _ => ?_
    split
    · exact .pure ()
    · exact scope.walk_ignoresLedger _
  · refine .bind (scope.record_ignoresLedger _ _) fun _ => ?_
    split
    · exact .pure ()
    · exact scope.walk_ignoresLedger _

/-- An enum constant is extracted whatever the ledger holds. -/
theorem scanEnumConstant_ignoresLedger (owner : String) (n : Node) :
    IgnoresLedger (context.scanEnumConstant owner n) := by
  unfold scanEnumConstant
  split
  · exact context.warnNameless_ignoresLedger _ _
  · exact .bind (context.record_ignoresLedger _ _) fun _ =>
      context.walkIn_ignoresLedger _ _ fun scope => .forM scope.walk_ignoresLedger _

/-- A method is extracted whatever the ledger holds. -/
theorem scanMethod_ignoresLedger (owner : String) (n : Node) :
    IgnoresLedger (context.scanMethod owner n) := by
  unfold scanMethod
  split
  · exact context.warnNameless_ignoresLedger _ _
  · split
    · exact .fail _ _
    · refine .bind (context.record_ignoresLedger _ _) fun _ =>
        context.walkIn_ignoresLedger _ _ fun scope => ?_
      rw [walkMethod_eq]
      exact .forM scope.perform_ignoresLedger _

end FileContext

/-! ### Classes and members -/

namespace FileContext

/-- Extracts a class into a ledger: its name, its header and then its members in order, each into
the ledger that those before it left. The first that fails ends the extraction. -/
def extractClass (context : FileContext) (qualifier : Option String) (n : Node) : LedgerM Unit :=
  match n.nameToken? with
  | none => perform (context.warnNameless n "class")
  | some name => do
    let qualified := qualify qualifier name.text
    perform (context.record name.span (.classDecl qualified))
    perform (context.walkOutside qualified fun scope => n.header.forM scope.walk)
    n.members.attach.forM fun ⟨(kind, member), hm⟩ =>
      match kind with
      | .field => perform (context.scanField qualified member)
      | .enumConstant => perform (context.scanEnumConstant qualified member)
      | .method => perform (context.scanMethod qualified member)
      | .initializer =>
        perform (context.walkIn qualified .classInitializer fun scope => scope.walk member)
      | .classDecl =>
        have := Node.sizeOf_children_lt_of_mem_members hm
        context.extractClass (some qualified) member
termination_by sizeOf n.children

variable (context : FileContext)

/-- Extracts a member of a class into a ledger. -/
def extractMember (owner : String) : MemberKind × Node → LedgerM Unit
  | (.field, n) => perform (context.scanField owner n)
  | (.enumConstant, n) => perform (context.scanEnumConstant owner n)
  | (.method, n) => perform (context.scanMethod owner n)
  | (.initializer, n) =>
    perform (context.walkIn owner .classInitializer fun scope => scope.walk n)
  | (.classDecl, n) => context.extractClass (some owner) n

/-- A class without a name is only reported. -/
theorem extractClass_of_nameless {n : Node} (h : n.nameToken? = none) (qualifier : Option String) :
    context.extractClass qualifier n = perform (context.warnNameless n "class") := by
  rw [extractClass, h]

/-- A class with a name is extracted itself and then member by member. -/
theorem extractClass_of_name {n : Node} {name : Token} (h : n.nameToken? = some name)
    (qualifier : Option String) :
    context.extractClass qualifier n = (perform (context.scanClass qualifier n) >>= fun _ =>
      n.members.forM (context.extractMember (qualify qualifier name.text))) := by
  rw [extractClass, scanClass, h]
  dsimp only
  rw [← LedgerM.forM_attach (context.extractMember _) n.members, LedgerM.perform_bind, bind_assoc]
  -- the name and the header are extracted alike, and so is each member
  congr 2
  funext _
  congr 2
  funext _
  congr 1
  funext ⟨⟨kind, member⟩, hm⟩
  cases kind <;> rfl

/-- The extraction of a class into a ledger performs, one after the other, the declarations of the
class. -/
theorem perform_forM_classDeclarations (qualifier : Option String) (n : Node) :
    perform ((n.classDeclarations qualifier).forM context.scanDeclaration) =
      context.extractClass qualifier n := by
  rw [Node.classDeclarations_eq, Scan.forM_cons, LedgerM.perform_bind, scanDeclaration]
  cases hname : n.nameToken? with
  | none =>
    rw [context.extractClass_of_nameless hname, scanClass, hname]
    exact bind_pure_unit
  | some name =>
    dsimp only
    rw [context.extractClass_of_name hname, Scan.forM_flatMap, LedgerM.perform_forM]
    congr 1
    funext _
    -- a class among the members has declarations of its own, any other member is one declaration
    refine LedgerM.forM_congr ?_
    rintro ⟨kind, member⟩ hm
    have hsingle (d : Declaration) :
        perform ([d].forM context.scanDeclaration) = perform (context.scanDeclaration d) := by
      rw [Scan.forM_cons, Scan.forM_nil, bind_pure_unit]
    have := Node.sizeOf_children_lt_of_mem_members hm
    cases kind with
    | field => exact hsingle (.field _ member)
    | enumConstant => exact hsingle (.enumConstant _ member)
    | method => exact hsingle (.method _ member)
    | initializer => exact hsingle (.initializer _ member)
    | classDecl => exact perform_forM_classDeclarations _ member
termination_by sizeOf n.children

/-- The declarations of a file are extracted class by class. -/
theorem perform_forM_declarations (root : Node) :
    perform (root.declarations.forM context.scanDeclaration) =
      (root.childrenOfKind .classDecl).forM
        (context.extractClass (packageQualifier root.packageName)) := by
  rw [Node.declarations, Scan.forM_flatMap, LedgerM.perform_forM]
  exact LedgerM.forM_congr fun n _ => context.perform_forM_classDeclarations _ n

/-- A member is extracted whatever the ledger holds, if this is so for classes. -/
theorem independent_extractMember_of {owner : String} {member : MemberKind × Node}
    (h : member.1 = .classDecl → (context.extractClass (some owner) member.2).Independent) :
    (context.extractMember owner member).Independent := by
  obtain ⟨kind, n⟩ := member
  cases kind with
  | field => exact (context.scanField_ignoresLedger owner n).independent_perform
  | enumConstant => exact (context.scanEnumConstant_ignoresLedger owner n).independent_perform
  | method => exact (context.scanMethod_ignoresLedger owner n).independent_perform
  | initializer =>
    exact (context.walkIn_ignoresLedger owner _ fun scope =>
      scope.walk_ignoresLedger n).independent_perform
  | classDecl => exact h rfl

/-- A class is extracted whatever the ledger holds, by recursion over its members. -/
theorem independent_extractClass (qualifier : Option String) (n : Node) :
    (context.extractClass qualifier n).Independent := by
  have hclass := (context.scanClass_ignoresLedger qualifier n).independent_perform
  cases hname : n.nameToken? with
  | none =>
    rw [context.extractClass_of_nameless hname]
    exact (context.warnNameless_ignoresLedger n "class").independent_perform
  | some name =>
    rw [context.extractClass_of_name hname]
    refine hclass.bind fun _ => .forM fun member hm => ?_
    have := Node.sizeOf_children_lt_of_mem_members hm
    exact context.independent_extractMember_of fun _ => independent_extractClass _ member.2
termination_by sizeOf n.children

/-- A member is extracted whatever the ledger holds. -/
theorem independent_extractMember (owner : String) (member : MemberKind × Node) :
    (context.extractMember owner member).Independent :=
  context.independent_extractMember_of fun _ => context.independent_extractClass _ _

/-- The records of a walk of its own. -/
def walkRecords (className : String) (method : MethodLabel) (steps : Scope → Walk Unit) :
    List Record :=
  Journal.records
    ((steps ⟨context, className, method⟩).run (.initial context.options)).journal

/-- The records of a class, part by part: that of its name, those of a walk through its header, and
those that each of its members has alone. A class without a name has none. -/
def classRecords (qualifier : Option String) (n : Node) : List Record :=
  match n.nameToken? with
  | none => []
  | some name =>
    let qualified := qualify qualifier name.text
    context.recordAt name.span (.classDecl qualified) ::
      (context.walkRecords qualified .outsideMethod fun scope => n.header.forM scope.walk) ++
      n.members.flatMap fun member => (context.extractMember qualified member).alone.2.records

/-- A class with a name has its own record and those of a walk through its header. -/
theorem records_scanClass {n : Node} {name : Token} (h : n.nameToken? = some name)
    (qualifier : Option String) :
    Journal.records ((context.scanClass qualifier n).run ()).journal =
      context.recordAt name.span (.classDecl (qualify qualifier name.text)) ::
        context.walkRecords (qualify qualifier name.text) .outsideMethod fun scope =>
          n.header.forM scope.walk := by
  rw [scanClass, h]
  rfl

/-- A class that is extracted to the end has its records part by part, and each of its members is
extracted to the end alone. -/
theorem alone_extractClass_of_ok {qualifier : Option String} {n : Node}
    (h : (context.extractClass qualifier n).alone.1 = .ok ()) :
    (context.extractClass qualifier n).alone.2.records = context.classRecords qualifier n ∧
      ∀ name, n.nameToken? = some name → ∀ member ∈ n.members,
        (context.extractMember (qualify qualifier name.text) member).alone.1 = .ok () := by
  unfold classRecords
  cases hname : n.nameToken? with
  | none =>
    refine ⟨?_, fun _ hsome => by cases hsome⟩
    rw [context.extractClass_of_nameless hname, LedgerM.alone_perform]
    rfl
  | some name =>
    have hmembers := context.independent_extractMember (qualify qualifier name.text)
    rw [context.extractClass_of_name hname] at h ⊢
    obtain ⟨_, -, hok, happended⟩ :=
      LedgerM.Independent.alone_bind_of_ok (fun _ => .forM fun member _ => hmembers member) h
    obtain ⟨hall, hrecords⟩ :=
      LedgerM.Independent.alone_forM_of_ok (fun member _ => hmembers member) hok
    constructor
    · rw [happended, Ledger.records_append, hrecords, LedgerM.alone_perform]
      exact congrArg (· ++ _) (context.records_scanClass hname qualifier)
    · intro _ hsome
      cases hsome
      exact hall

/-- A file that is scanned to the end has the records of its head and then those of its classes, and
each of the classes is extracted to the end alone. -/
theorem records_scanRoot_of_ok {root : Node}
    (h : ((context.scanRoot root).run ()).result = .ok ()) :
    (∀ n ∈ root.childrenOfKind .classDecl,
      (context.extractClass (packageQualifier root.packageName) n).alone.1 = .ok ()) ∧
    Journal.records ((context.scanRoot root).run ()).journal =
      context.headRecords root ++ (root.childrenOfKind .classDecl).flatMap
        (context.classRecords (packageQualifier root.packageName)) := by
  have hwell : root.malformation? = none := by
    cases hmalformed : root.malformation? with
    | none => rfl
    | some malformed =>
      rw [context.run_scanRoot_of_malformed hmalformed] at h
      cases h
  rw [context.run_scanRoot_of_wellFormed hwell] at h ⊢
  have hperformed := congrArg LedgerM.alone (context.perform_forM_declarations root)
  rw [LedgerM.alone_perform] at hperformed
  obtain ⟨hall, hrecords⟩ := LedgerM.Independent.alone_forM_of_ok
    (fun n _ => context.independent_extractClass _ n) ((congrArg Prod.fst hperformed).symm.trans h)
  refine ⟨hall, ?_⟩
  -- behind the head, the journal is what the classes write into one ledger
  rw [Journal.records_append, Journal.records_map_record]
  refine congrArg (context.headRecords root ++ ·) ?_
  calc Journal.records ((root.declarations.forM context.scanDeclaration).run ()).journal
      = ((root.childrenOfKind .classDecl).forM
          (context.extractClass (packageQualifier root.packageName))).alone.2.records :=
        congrArg (fun performed => performed.2.records) hperformed
    _ = _ := hrecords
    _ = _ := List.flatMap_congr fun n hn => (context.alone_extractClass_of_ok (hall n hn)).1

end FileContext

/-- The extraction of a class or of a member appends to the ledger that it is handed what it writes
alone, and gives what it gives alone. So the records of a class that is extracted to the end are
that of its name, those of a walk through its header, and those that its members have alone, and
the records of a file that succeeds are those of its head and then, class by class, these. -/
theorem members_are_extracted_independently :
    (∀ (context : FileContext) (qualifier : Option String) (n : Node),
      (context.extractClass qualifier n).Independent) ∧
    (∀ (context : FileContext) (owner : String) (member : MemberKind × Node),
      (context.extractMember owner member).Independent) ∧
    (∀ (context : FileContext) (qualifier : Option String) (n : Node),
      (context.extractClass qualifier n).alone.1 = .ok () →
      (context.extractClass qualifier n).alone.2.records = context.classRecords qualifier n ∧
      ∀ name, n.nameToken? = some name → ∀ member ∈ n.members,
        (context.extractMember (qualify qualifier name.text) member).alone.1 = .ok ()) ∧
    ∀ (file : String) (tree : Tree) (resolver : Resolver) (options : Options),
      (extract file tree resolver options).result = .ok () →
      let context := FileContext.ofText file tree.root.text resolver options
      let qualifier := packageQualifier tree.root.packageName
      let classes := tree.root.childrenOfKind .classDecl
      (∀ n ∈ classes, (context.extractClass qualifier n).alone.1 = .ok ()) ∧
      (extract file tree resolver options).records =
        context.headRecords tree.root ++ classes.flatMap (context.classRecords qualifier) := by
  refine ⟨fun context => context.independent_extractClass,
    fun context => context.independent_extractMember,
    fun context _ _ => context.alone_extractClass_of_ok, ?_⟩
  intro file tree resolver options hok context qualifier classes
  obtain ⟨hscanned, hextracted⟩ := records_extract_of_ok hok
  obtain ⟨hall, hrecords⟩ := context.records_scanRoot_of_ok hscanned
  exact ⟨hall, hextracted.trans hrecords⟩

/-- The parts of a method that declares a variable behind a comment. -/
def declaringParts (name comment variableName : String) : List Element :=
  [.token .ident name,
    .node .codeBlock
      [.token .lineComment comment,
        .node .declarationStatement [.node .localVariable [.token .ident variableName]]]]

/-- A file of the package `p` that imports `q`, with a class `A` that extends `C` and has two
methods and a class in it. The first method opens injected code and does not close it. -/
def openedTree : Tree :=
  ⟨⟨0⟩, .sourceFile,
    [.node .packageStatement [.node .reference [.token .ident "p"]],
      .node .importStatement [.node .reference [.token .ident "q"]],
      .node .classDecl
        [.token .ident "A", .node .extendsList [.node .reference [.token .ident "C"]],
          .node .method (declaringParts "m" "// patch start" "x"),
          .node .method (declaringParts "n" "//" "y"),
          .node .classDecl [.token .ident "B", .node .field [.token .ident "f"]]]]⟩

/-- The class that `A` extends, and the types of its methods. -/
def openedBindings : Bindings :=
  ((Bindings.empty.insertReference (.ofSize 3 1) (.classDecl "C")).insertMethod (.ofSize 4 1)
    ⟨[], .primitive .void⟩).insertMethod (.ofSize 20 1) ⟨[], .primitive .void⟩

/-- The variable of the second method is numbered as ordinary code, from zero on, although the first
method has left its variable in injected code. The second method has the same two records when it is
extracted alone, and appends them once more to the records of the whole file. -/
theorem members_are_extracted_independently_opened :
    let context := FileContext.ofText "A.java" openedTree.root.text openedBindings.resolver {}
    let e := extract "A.java" openedTree openedBindings.resolver {}
    let second := context.extractMember "p.A"
      (.method, ⟨⟨0⟩, 20, .method, declaringParts "n" "//" "y"⟩)
    let own : List Record :=
      [⟨"A.java", 20, 21, .method "p.A" "n" "()V"⟩,
        ⟨"A.java", 23, 24, .localVariable ⟨"p.A", ⟨"n", "()V"⟩, "y", some 0⟩⟩]
    e.result = .ok () ∧
    e.records =
      [⟨"A.java", 0, 1, .package "p"⟩, ⟨"A.java", 1, 2, .classDecl "q"⟩,
        ⟨"A.java", 2, 3, .classDecl "p.A"⟩, ⟨"A.java", 3, 4, .classDecl "C"⟩,
        ⟨"A.java", 4, 5, .method "p.A" "m" "()V"⟩,
        ⟨"A.java", 19, 20, .localVariable ⟨"p.A", ⟨"m", "()V"⟩, "x", some 100⟩⟩] ++ own ++
      [⟨"A.java", 24, 25, .classDecl "p.A.B"⟩, ⟨"A.java", 25, 26, .field "p.A.B" "f"⟩] ∧
    e.records = context.headRecords openedTree.root ++
      (openedTree.root.childrenOfKind .classDecl).flatMap (context.classRecords (some "p")) ∧
    second.alone = (.ok (), ⟨own, []⟩) ∧
    second.into ⟨e.records, e.diagnostics⟩ = (.ok (), ⟨e.records ++ own, e.diagnostics⟩) := by
  intro context e second own
  have hok : e.result = .ok () := by decide +kernel
  have halone : second.alone = (.ok (), ⟨own, []⟩) := by
    have hresult : second.alone.1 = .ok () := by decide +kernel
    have hledger : second.alone.2 = ⟨own, []⟩ := by decide +kernel
    exact Prod.ext hresult hledger
  obtain ⟨-, hmembers, -, hfiles⟩ := members_are_extracted_independently
  refine ⟨hok, by decide +kernel, (hfiles _ _ _ _ hok).2, halone, ?_⟩
  rw [hmembers, halone]
  exact Prod.ext rfl (Ledger.ext rfl (List.append_nil _))

end SymbolRanges

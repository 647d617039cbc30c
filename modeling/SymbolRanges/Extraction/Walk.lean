import SymbolRanges.Extraction.Scan
import SymbolRanges.Extraction.TypeReferences
import SymbolRanges.IndexTable
import SymbolRanges.Options
import SymbolRanges.Type.Descriptor

/-!
# Walking a stretch of code

A walk goes through one stretch of code, such as a method or a field initializer, in pre-order,
and records every declaration and reference that it meets. It numbers the variables in the order
of their declarations; the variables of injected code are numbered apart, from a base of their
own, so that the others keep their numbers when the injected code changes.
-/

set_option autoImplicit false

namespace SymbolRanges

/-- What all walks through one file share. -/
structure FileContext where
  file : String
  offsets : OffsetMap
  resolver : Resolver
  options : Options

namespace FileContext

variable {σ : Type}

/-- The context of a file with a given text. -/
def ofText (file text : String) (resolver : Resolver) (options : Options) : FileContext :=
  ⟨file, OffsetMap.ofText text options.encoding, resolver, options⟩

/-- The record of a symbol that is named at a span. -/
def recordAt (context : FileContext) (span : Span) (identity : Identity) : Record where
  file := context.file
  start := context.offsets.offset span.start
  stop := context.offsets.offset span.stop
  identity := identity

/-- The diagnostic of a warning at a byte position. -/
def warningAt (context : FileContext) (position : Nat) (scope : String) (warning : Warning) :
    Diagnostic where
  severity := .warning
  code := warning.code
  file := context.file
  offset := some (context.offsets.offset position)
  message := warning.message scope

/-- Records a symbol that is named at a span. -/
def record (context : FileContext) (span : Span) (identity : Identity) : Scan σ Unit :=
  .write (.record (context.recordAt span identity))

end FileContext

/-- A stretch of code: where it stands, and the class and method that it belongs to. -/
structure Scope extends FileContext where
  className : String
  method : MethodLabel

/-- How far a walk has come. -/
structure WalkState where
  /-- The region that the walk is in. -/
  region : Region
  /-- The indices of the local variables declared so far. -/
  locals : IndexTable
  /-- The indices of the parameters of the method. -/
  parameters : Table Span Nat
  /-- Whether an index of ordinary code has reached the base of injected code. -/
  collided : Bool

/-- A walk starts in ordinary code and has declared nothing. -/
def WalkState.initial (options : Options) : WalkState :=
  ⟨.normal, .empty options.injectedBase, ∅, false⟩

/-- A step of a walk. -/
abbrev Walk := Scan WalkState

namespace Scope

/-- A stretch of code in words. -/
def describe (scope : Scope) : String := scopeText scope.className scope.method

/-- A variable of the method that the code belongs to. -/
def localName (scope : Scope) (name : String) (index : Option Nat) : Variable :=
  ⟨scope.className, scope.method, name, index⟩

/-- Reports a warning at a byte position. -/
def warn (scope : Scope) (position : Nat) (warning : Warning) : Walk Unit :=
  .write (.diagnostic (scope.warningAt position scope.describe warning))

/-- The error of a reference that points at nothing known. -/
def unresolvedError (scope : Scope) (reference : Node) : FileFailure :=
  let position := match reference.referenceName? with
    | some name => name.start
    | none => reference.start
  .unresolvedReference scope.file scope.className scope.method reference.spelling
    (scope.offsets.offset position)

/-- Fails the file at a reference that points at nothing known. -/
def failUnresolved (scope : Scope) (reference : Node) : Walk Unit :=
  Scan.fail (scope.unresolvedError reference)
    ("unresolved symbol `" ++ reference.spelling ++ "` in " ++ scope.describe)

/-! ### Types -/

/-- Records the class that a reference of a declared type points at. -/
def recordTypeReference (scope : Scope) (reference : Node) : Walk Unit :=
  match scope.resolver.target? reference with
  | none => scope.failUnresolved reference
  | some (.classDecl qualifiedName) =>
    match reference.referenceName? with
    | some name => scope.record name.span (.classDecl qualifiedName)
    | none => pure ()
  | some other => .write (.note ⟨.trace, "type does not name a class", [("kind", other.label)]⟩)

/-- Records the classes that a declared type is made of. -/
def recordType (scope : Scope) (type : Node) : Walk Unit :=
  (type.typeReferences scope.resolver.isClass).forM scope.recordTypeReference

/-- Records the classes that the type of a declaration is made of, if it has a type. -/
def recordDeclaredType (scope : Scope) (declaration : Node) : Walk Unit :=
  match declaration.child? .type with
  | some type => scope.recordType type
  | none => pure ()

/-! ### Declarations -/

/-- Whether a new index is the first of ordinary code that injected code may have as well. -/
def collides (scope : Scope) (state : WalkState) (index : Nat) : Bool :=
  decide (state.region = .normal ∧ scope.options.injectedBase ≤ index) && !state.collided

/-- Gives the variable that a token declares its index. -/
def assignIndex (scope : Scope) (name : Token) : Walk Nat := do
  let state ← Scan.get
  match state.locals.assign? name.span state.region with
  | none => Scan.stop .indexOverflow
  | some (index, locals) =>
    let collides := scope.collides state index
    Scan.modify fun state => { state with locals, collided := state.collided || collides }
    if collides then
      scope.warn name.start (.indexCollision index name.text scope.options.injectedBase)
    pure index

/-- Declares a local variable, the variable of a for-each statement or of a catch section. -/
def introduceVariable (scope : Scope) (declaration : Node) : Walk Unit := do
  scope.recordDeclaredType declaration
  match declaration.nameToken? with
  | none => scope.warn declaration.start (.namelessVariable "local variable")
  | some name =>
    let index ← scope.assignIndex name
    scope.record name.span (.localVariable (scope.localName name.text (some index)))

/-- Declares what stands in a declaration statement. -/
def introduceElement (scope : Scope) (element : Node) : Walk Unit :=
  match element.kind with
  | .localVariable => scope.introduceVariable element
  | .classDecl => scope.warn element.start .localClass
  | kind => scope.warn element.start (.unknownDeclaration kind)

/-! ### References -/

/-- Records a reference to a local variable, with its index if it was declared before. -/
def recordLocalReference (scope : Scope) (reference : Token) (declaration : Span)
    (name : String) : Walk Unit := do
  let state ← Scan.get
  let index := state.locals.find? declaration
  if index.isNone then
    scope.warn reference.start (.missingLocalIndex name)
  scope.record reference.span (.localVariable (scope.localName name index))

/-- Records a reference to a parameter of the method, with its index if the method has it. -/
def recordParameterReference (scope : Scope) (reference : Token) (declaration : Span)
    (name : String) : Walk Unit := do
  let state ← Scan.get
  let index := state.parameters.find? declaration
  if index.isNone then
    scope.warn reference.start (.missingParameterIndex name)
  scope.record reference.span (.parameter (scope.localName name index))

/-- Records what a reference with a given name token points at. Packages are not recorded, and
neither are the parameters of lambda expressions and targets of other kinds. -/
def recordTarget (scope : Scope) (reference : Token) : Target → Walk Unit
  | .package _ => pure ()
  | .classDecl qualifiedName => scope.record reference.span (.classDecl qualifiedName)
  | .field owner name => scope.record reference.span (.field owner name)
  | .method owner name type => scope.record reference.span (.method owner name type.descriptor)
  | .localVariable declaration name => scope.recordLocalReference reference declaration name
  | .parameter declaration name .method =>
    scope.recordParameterReference reference declaration name
  | .parameter declaration name .forEach => scope.recordLocalReference reference declaration name
  | .parameter declaration name .catchSection =>
    scope.recordLocalReference reference declaration name
  | .parameter _ name .lambda => scope.warn reference.start (.lambdaParameter name)
  | .other description =>
    scope.warn reference.start (.unsupportedTarget reference.text description)

/-- Records a reference; one without a name is passed over. -/
def recordReference (scope : Scope) (reference : Node) : Walk Unit :=
  match reference.referenceName? with
  | none => .write (.note ⟨.trace, "reference without a name", []⟩)
  | some name =>
    match scope.resolver.target? reference with
    | none => scope.failUnresolved reference
    | some target => scope.recordTarget name target

/-! ### The walk -/

/-- How a change of region is logged. -/
def regionEvent (scope : Scope) (region : Region) : Log.Event where
  level := .debug
  message := "region marker"
  fields :=
    [("class", scope.className), ("method", scope.method.name), ("region", region.label)]

/-- Switches the region at a marker comment. -/
def switchRegion (scope : Scope) (token : Token) : Walk Unit := do
  if token.kind = .lineComment then
    match scope.options.marker? token.text with
    | none => pure ()
    | some region =>
      let state ← Scan.get
      if region ≠ state.region then
        Scan.write (.note (scope.regionEvent region))
      Scan.modify fun state => { state with region }

/-- Declares what a node declares, or records what it refers to. -/
def visitNode (scope : Scope) (n : Node) : Walk Unit :=
  match n.kind with
  | .declarationStatement => n.declared.forM scope.introduceElement
  | .catchSection | .foreachStatement =>
    match n.child? .parameter with
    | some parameter => scope.introduceVariable parameter
    | none => pure ()
  | .reference => scope.recordReference n
  | _ => pure ()

/-- Visits a node or a token, without what is below it. -/
def visit (scope : Scope) : Item → Walk Unit
  | .node n => scope.visitNode n
  | .token t => scope.switchRegion t

/-- Walks through a node and everything below it. -/
def walk (scope : Scope) (n : Node) : Walk Unit := n.preorder.forM scope.visit

/-- Walks through a part of a construct, if it is there. -/
def walkPart (scope : Scope) (n : Node) (kind : Kind) : Walk Unit :=
  match n.child? kind with
  | some part => scope.walk part
  | none => pure ()

/-- Declares the parameter of the method with a given index. -/
def introduceParameter (scope : Scope) (index : Nat) (parameter : Node) : Walk Unit := do
  scope.walkPart parameter .modifierList
  scope.recordDeclaredType parameter
  match parameter.nameToken? with
  | none => scope.warn parameter.start (.namelessVariable "parameter")
  | some name =>
    Scan.modify fun state =>
      { state with parameters := state.parameters.insert name.span index }
    scope.record name.span (.parameter (scope.localName name.text (some index)))

/-- Gives parameters their indices without declaring them. -/
def seedParameters (indices : List (Span × Nat)) : Walk Unit :=
  .modify fun state => { state with parameters := state.parameters.insertAll indices }

end Scope

end SymbolRanges

import SymbolRanges.Extraction.Declaration
import SymbolRanges.Extraction.Walk

/-!
# Extracting a file

A file is extracted declaration by declaration, and every stretch of code is walked afresh. A file
is reported completely or not at all: when its extraction fails, its records are dropped and its
diagnostics stay.
-/

set_option autoImplicit false

namespace SymbolRanges

/-- Extraction at the level of a file, which carries no state. -/
abbrev FileScan := Scan Unit

/-- Why a tree is not a well-formed file, and the byte position that shows it: its first element
that could not be parsed, else its root if that is not a file. -/
def Node.malformation? (root : Node) : Option (Malformation × Nat) :=
  match root.preorder.find? fun item => decide (item.kind = .error) with
  | some item => some (.errorElement, item.start)
  | none => if root.kind = .sourceFile then none else some (.notASourceFile, root.start)

namespace FileContext

/-- A walk of its own through a stretch of code. -/
def walkIn (context : FileContext) (className : String) (method : MethodLabel)
    (steps : Scope → Walk Unit) : FileScan Unit :=
  .fresh (.initial context.options) (steps ⟨context, className, method⟩)

/-- A walk of its own through code outside methods. -/
def walkOutside (context : FileContext) (className : String) (steps : Scope → Walk Unit) :
    FileScan Unit :=
  context.walkIn className .outsideMethod steps

/-- Reports a class or member without a name. -/
def warnNameless {σ : Type} (context : FileContext) (n : Node) (what : String) : Scan σ Unit :=
  .write (.diagnostic (context.warningAt n.start "" (.namelessDeclaration what)))

/-! ### Declarations -/

/-- Extracts the name and the header of a class. -/
def scanClass (context : FileContext) (qualifier : Option String) (n : Node) :
    FileScan Unit :=
  match n.nameToken? with
  | none => context.warnNameless n "class"
  | some name => do
    let qualified := qualify qualifier name.text
    context.record name.span (.classDecl qualified)
    context.walkOutside qualified fun scope => n.header.forM scope.walk

/-- Extracts a field. -/
def scanField (context : FileContext) (owner : String) (n : Node) : FileScan Unit :=
  context.walkOutside owner fun scope => do
    scope.walkPart n .modifierList
    scope.recordDeclaredType n
    match n.nameToken? with
    | none => context.warnNameless n "field"
    | some name => scope.record name.span (.field owner name.text)
    match n.initializer? with
    | none => pure ()
    | some initializer => scope.walk initializer

/-- Extracts an enum constant with its arguments and body. -/
def scanEnumConstant (context : FileContext) (owner : String) (n : Node) : FileScan Unit :=
  match n.nameToken? with
  | none => context.warnNameless n "enum constant"
  | some name => do
    context.record name.span (.field owner name.text)
    context.walkOutside owner fun scope => n.childNodes.forM scope.walk

/-- Declares the parameters of a method in order; those without a name count as well. -/
def introduceParameters (scope : Scope) (parameters : List Node) : Walk Unit :=
  parameters.zipIdx.forM fun (parameter, index) => scope.introduceParameter index parameter

/-- Walks through a method: its header from left to right, then its body. -/
def walkMethod (n : Node) (scope : Scope) : Walk Unit := do
  scope.walkPart n .modifierList
  scope.walkPart n .typeParameterList
  scope.recordDeclaredType n
  introduceParameters scope n.parameters
  scope.walkPart n .throwsList
  scope.walkPart n .codeBlock

/-- Extracts a method. -/
def scanMethod (context : FileContext) (owner : String) (n : Node) : FileScan Unit :=
  match n.nameToken? with
  | none => context.warnNameless n "method"
  | some name =>
    match context.resolver.methodType? n with
    | none =>
      .fail (.unresolvedMethodType context.file owner name.text
          (context.offsets.offset name.start))
        ("unresolved types of method `" ++ name.text ++ "` in " ++ owner)
    | some type => do
      let signature := type.descriptor
      context.record name.span (.method owner name.text signature)
      context.walkIn owner ⟨name.text, signature⟩ (walkMethod n)

/-- Extracts a declaration. -/
def scanDeclaration (context : FileContext) : Declaration → FileScan Unit
  | .classDecl qualifier n => context.scanClass qualifier n
  | .field owner n => context.scanField owner n
  | .enumConstant owner n => context.scanEnumConstant owner n
  | .method owner n => context.scanMethod owner n
  | .initializer owner n => context.walkIn owner .classInitializer fun scope => scope.walk n

/-! ### Files -/

/-- Records the package of a file, if the options ask for it. -/
def recordPackage (context : FileContext) (root : Node) : FileScan Unit :=
  if context.options.recordsPackage then
    match (root.child? .packageStatement).bind fun statement => statement.child? .reference with
    | some reference => context.record reference.span (.package root.packageName)
    | none => pure ()
  else pure ()

/-- Records the class of an import. -/
def recordImport (context : FileContext) (n : Node) : FileScan Unit :=
  match n.child? .reference with
  | some reference => context.record reference.span (.classDecl reference.spelling)
  | none => pure ()

/-- Records the imports of a file, if the options ask for it. -/
def recordImports (context : FileContext) (root : Node) : FileScan Unit :=
  if context.options.recordsImports then
    (root.childrenOfKind .importStatement).forM context.recordImport
  else pure ()

/-- Fails a file with a malformed tree. -/
def failMalformed (context : FileContext) (malformation : Malformation) (position : Nat) :
    FileScan Unit :=
  .fail (.malformedTree context.file (context.offsets.offset position)) malformation.message

/-- Extracts a file from the root of its tree. -/
def scanRoot (context : FileContext) (root : Node) : FileScan Unit :=
  match root.malformation? with
  | some (malformation, position) => context.failMalformed malformation position
  | none => do
    context.recordPackage root
    context.recordImports root
    root.declarations.forM context.scanDeclaration

end FileContext

/-- What the extraction of a file yields. -/
structure ExtractedFile where
  file : String
  /-- The records of the file; none if the extraction failed. -/
  records : List Record
  diagnostics : List Diagnostic
  events : List Log.Event
  result : Except Stop Unit

namespace ExtractedFile

/-- Whether the extraction of the file succeeded. -/
def succeeded (extraction : ExtractedFile) : Bool := extraction.result.isOk

/-- How the dropping of the records of a failed file is logged. -/
def dropEvent (file : String) (dropped : Nat) : Log.Event where
  level := .debug
  message := "dropping partial records"
  fields := [("file", file), ("discarded", toString dropped)]

/-- What the outcome of a scan yields. -/
def ofOutcome (file : String) (o : Outcome Unit Unit) : ExtractedFile :=
  let records := Journal.records o.journal
  let diagnostics := Journal.diagnostics o.journal
  let events := Journal.events o.journal
  match o.result with
  | .ok () => ⟨file, records, diagnostics, events, .ok ()⟩
  | .error (.failed error) =>
    ⟨file, [], diagnostics, events ++ [dropEvent file records.length], .error (.failed error)⟩
  | .error .indexOverflow => ⟨file, [], diagnostics, events, .error .indexOverflow⟩

end ExtractedFile

/-- Extracts every symbol range of the file with a given tree. -/
def extract (file : String) (tree : Tree) (resolver : Resolver) (options : Options) :
    ExtractedFile :=
  let root := tree.root
  let context := FileContext.ofText file root.text resolver options
  .ofOutcome file ((context.scanRoot root).run ())

end SymbolRanges

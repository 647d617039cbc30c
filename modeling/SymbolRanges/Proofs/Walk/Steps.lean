import SymbolRanges.Extraction.File
import SymbolRanges.Proofs.Scan.Visits
import SymbolRanges.Proofs.Walk.Variables

/-!
# A walk as a list of steps

Whatever a walk does is a sequence of three kinds of steps: it visits a node or token, it records
a reference of a declared type, or it declares a parameter of the method. `Node.methodSteps` lists
the steps of a method from its header to its body, and `walkMethod_eq` says that extracting the
method is performing them in turn.
-/

set_option autoImplicit false

namespace SymbolRanges

/-- A step of a walk. -/
inductive WalkStep where
  /-- Visits a node or token. -/
  | visit (item : Item)
  /-- Records a reference of a declared type. -/
  | typeReference (reference : Node)
  /-- Declares the parameter of the method with a given index. -/
  | parameter (index : Nat) (declaration : Node)

namespace WalkStep

/-- The node or token that a step visits, if it visits one. -/
def item? : WalkStep → Option Item
  | visit item => some item
  | _ => none

/-- The index and the declaration of the parameter that a step declares, if it declares one. -/
def parameter? : WalkStep → Option (Nat × Node)
  | parameter index declaration => some (index, declaration)
  | _ => none

/-- The names of the local variables that a step declares. -/
def variableNames (step : WalkStep) : List Token :=
  step.item?.toList.flatMap Item.variableNames

/-- Whether a step visits a reference. -/
def visitsReference : WalkStep → Bool
  | visit (.node n) => decide (n.kind = .reference)
  | _ => false

end WalkStep

/-! ### The steps of each part -/

namespace Node

/-- The steps of a walk through a node. -/
def walkSteps (n : Node) : List WalkStep := n.preorder.map .visit

/-- The steps of a walk through a part of a construct, if it is there. -/
def partSteps (n : Node) (kind : Kind) : List WalkStep :=
  (n.child? kind).toList.flatMap walkSteps

/-- The steps that record the type of a declaration, if it has one. -/
def typeSteps (isClass : Node → Bool) (declaration : Node) : List WalkStep :=
  (declaration.child? .type).toList.flatMap fun type =>
    (type.typeReferences isClass).map .typeReference

/-- The steps that declare a parameter: its modifiers, its type and its name. -/
def parameterSteps (isClass : Node → Bool) (index : Nat) (p : Node) : List WalkStep :=
  p.partSteps .modifierList ++ p.typeSteps isClass ++ [.parameter index p]

/-- The steps of the header of a method, up to its last parameter. -/
def headerSteps (isClass : Node → Bool) (n : Node) : List WalkStep :=
  n.partSteps .modifierList ++ n.partSteps .typeParameterList ++ n.typeSteps isClass ++
    n.parameters.zipIdx.flatMap fun q => q.1.parameterSteps isClass q.2

/-- The steps of a method: those of its header, of its throws list and of its body. -/
def methodSteps (isClass : Node → Bool) (n : Node) : List WalkStep :=
  n.headerSteps isClass ++ n.partSteps .throwsList ++ n.partSteps .codeBlock

end Node

/-! ### Performing steps -/

namespace Scope

variable (scope : Scope)

/-- Declares the name of the parameter of the method with a given index. -/
def nameParameter (index : Nat) (p : Node) : Walk Unit :=
  match p.nameToken? with
  | none => scope.warn p.start (.namelessVariable "parameter")
  | some name => do
    Scan.modify fun state =>
      { state with parameters := state.parameters.insert name.span index }
    scope.record name.span (.parameter (scope.localName name.text (some index)))

/-- Performs a step. -/
def perform : WalkStep → Walk Unit
  | .visit item => scope.visit item
  | .typeReference reference => scope.recordTypeReference reference
  | .parameter index p => scope.nameParameter index p

/-- The visits that a walk makes when it starts with given steps. -/
def visits (steps : List WalkStep) : List (Visit WalkStep) :=
  Scan.visits scope.perform steps (.initial scope.options)

/-- A walk performs its steps one after the other. -/
theorem walk_eq (n : Node) : scope.walk n = n.walkSteps.forM scope.perform := by
  unfold walk Node.walkSteps
  rw [Scan.forM_map]
  rfl

/-- The walk of a part of a declaration performs the steps of the part, if it is there. -/
theorem walkPart_eq (n : Node) (kind : Kind) :
    scope.walkPart n kind = (n.partSteps kind).forM scope.perform := by
  unfold walkPart Node.partSteps
  cases h : n.child? kind with
  | none => rfl
  | some part =>
    rw [Option.toList_some, List.flatMap_singleton, ← walk_eq]

/-- Recording the type of a declaration performs the steps of the type, if there is one. -/
theorem recordDeclaredType_eq (declaration : Node) :
    scope.recordDeclaredType declaration =
      (declaration.typeSteps scope.resolver.isClass).forM scope.perform := by
  unfold recordDeclaredType Node.typeSteps
  cases h : declaration.child? .type with
  | none => rfl
  | some type =>
    rw [Option.toList_some, List.flatMap_singleton, Scan.forM_map]
    rfl

/-- Introducing a parameter performs its steps: its modifiers, its type and its name. -/
theorem introduceParameter_eq (index : Nat) (p : Node) :
    scope.introduceParameter index p =
      (p.parameterSteps scope.resolver.isClass index).forM scope.perform := by
  have hname : [WalkStep.parameter index p].forM scope.perform = scope.nameParameter index p := by
    rw [Scan.forM_cons, Scan.forM_nil]
    exact bind_pure (scope.nameParameter index p)
  unfold Node.parameterSteps
  rw [List.append_assoc, Scan.forM_append, Scan.forM_append, ← walkPart_eq,
    ← recordDeclaredType_eq, hname]
  rfl

end Scope

/-- Extracting a method performs its steps in turn. -/
theorem walkMethod_eq (n : Node) (scope : Scope) :
    FileContext.walkMethod n scope =
      (n.methodSteps scope.resolver.isClass).forM scope.perform := by
  have hparameters : FileContext.introduceParameters scope n.parameters =
      (n.parameters.zipIdx.flatMap fun q =>
        q.1.parameterSteps scope.resolver.isClass q.2).forM scope.perform := by
    unfold FileContext.introduceParameters
    rw [Scan.forM_flatMap]
    congr
    funext ⟨p, index⟩
    exact scope.introduceParameter_eq index p
  unfold FileContext.walkMethod Node.methodSteps Node.headerSteps
  simp only [List.append_assoc, Scan.forM_append, ← Scope.walkPart_eq,
    ← Scope.recordDeclaredType_eq, ← hparameters]

end SymbolRanges

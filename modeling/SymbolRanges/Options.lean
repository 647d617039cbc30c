import SymbolRanges.Region
import SymbolRanges.Text.Offset

/-!
# Options of an extraction

What an extraction counts offsets in, which marker comments it accepts and which statements it
records. The defaults accept every tag and record everything, in characters.
-/

set_option autoImplicit false

namespace SymbolRanges

/-- What an extraction counts, accepts and records. -/
structure Options where
  /-- The first index that injected declarations get. -/
  injectedBase : Nat := 100
  /-- The tags accepted in region markers; when there are none, any tag is. -/
  regionTags : List String := []
  /-- The unit of offsets. -/
  encoding : Encoding := .char
  /-- Whether the package statement is recorded. -/
  recordsPackage : Bool := true
  /-- Whether imports are recorded. -/
  recordsImports : Bool := true
  deriving DecidableEq

namespace Options

instance : Inhabited Options := ⟨{}⟩

/-- Whether a tag opens and closes injected regions. -/
def acceptsTag (options : Options) (tag : String) : Bool :=
  options.regionTags.isEmpty ||
    options.regionTags.any fun accepted => Text.equalIgnoringCase accepted tag

/-- The region that a comment switches to, if it is a marker. -/
def marker? (options : Options) (comment : String) : Option Region :=
  Region.ofComment? options.acceptsTag comment

end Options

end SymbolRanges

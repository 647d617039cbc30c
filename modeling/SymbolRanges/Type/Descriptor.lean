import SymbolRanges.Type.Basic

/-!
# Descriptors

The descriptor of a type is the text that class files use for it. It keeps primitive types, array
nesting and class names, drops type arguments, and replaces a type variable by its bound.
-/

set_option autoImplicit false

namespace SymbolRanges

/-- The letter of a primitive type in a descriptor. -/
def PrimitiveType.letter : PrimitiveType → Char
  | .boolean => 'Z'
  | .byte => 'B'
  | .char => 'C'
  | .short => 'S'
  | .int => 'I'
  | .long => 'J'
  | .float => 'F'
  | .double => 'D'
  | .void => 'V'

/-- A character of a binary name as it stands in a descriptor: a slash for each dot. -/
def internalChar (c : Char) : Char := if c = '.' then '/' else c

/-- A class in a descriptor. -/
def classDescriptor (binaryName : List Char) : List Char :=
  'L' :: binaryName.map internalChar ++ [';']

/-- The class that a type variable without a bound stands for. -/
def rootClass : String := "java.lang.Object"

/-- The characters of a type's descriptor. -/
def TypeTerm.descriptorChars : TypeTerm → List Char
  | primitive type => [type.letter]
  | classType binaryName _ => classDescriptor binaryName.toList
  | array element => '[' :: element.descriptorChars
  | freeVariable _ => classDescriptor rootClass.toList
  | boundedVariable _ bound => bound.descriptorChars

/-- The descriptor of a type. -/
def TypeTerm.descriptor (type : TypeTerm) : String := String.ofList type.descriptorChars

/-- The characters of a method's descriptor: the parameters in parentheses, then the result. -/
def MethodType.descriptorChars (method : MethodType) : List Char :=
  '(' :: method.parameters.flatMap TypeTerm.descriptorChars ++ ')' :: method.result.descriptorChars

/-- The descriptor of a method. -/
def MethodType.descriptor (method : MethodType) : String := String.ofList method.descriptorChars

/-- A method that takes an integer and an array of strings and has no result. -/
example : (MethodType.mk [.primitive .int, .array (.classType "java.lang.String" [])]
    (.primitive .void)).descriptor = "(I[Ljava/lang/String;)V" := by decide

end SymbolRanges

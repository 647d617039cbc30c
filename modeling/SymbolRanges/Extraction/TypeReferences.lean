import SymbolRanges.Symbol.Resolver

/-!
# The references of a type

The references that a type in a declaration is made of, in the order in which they are recorded:
the name of the type itself, then its type arguments if that name is a class, then the types
nested in it, such as wildcard bounds and the alternatives of a union.
-/

set_option autoImplicit false

namespace SymbolRanges

/-- Whether a reference points at a class. -/
def Resolver.isClass (resolver : Resolver) (reference : Node) : Bool :=
  match resolver.target? reference with
  | some target => target.isClass
  | none => false

namespace Node

/-- The references of a type, in the order in which they are recorded. -/
def typeReferences (isClass : Node → Bool) (type : Node) : List Node :=
  (match hr : type.child? .reference with
    | none => []
    | some reference =>
      reference :: if isClass reference then
        reference.typeArguments.attach.flatMap fun ⟨argument, ha⟩ =>
          have := Nat.lt_trans (sizeOf_children_lt_of_mem_typeArguments ha)
            (sizeOf_children_lt (mem_childNodes_of_child? hr))
          typeReferences isClass argument
      else []) ++
    type.innerTypes.attach.flatMap fun ⟨nested, hn⟩ =>
      have := sizeOf_children_lt (mem_childNodes_of_mem_childrenOfKind hn)
      typeReferences isClass nested
termination_by sizeOf type.children

/-- The references of the name of a type: the name, and those of its arguments if it is a
class. -/
def nameReferences (isClass : Node → Bool) (reference : Node) : List Node :=
  reference :: if isClass reference then
    reference.typeArguments.flatMap (typeReferences isClass) else []

/-- The references of a type are those of its name and then those of the types nested in it. -/
theorem typeReferences_eq (isClass : Node → Bool) (type : Node) :
    type.typeReferences isClass =
      (type.child? .reference).toList.flatMap (nameReferences isClass) ++
        type.innerTypes.flatMap (typeReferences isClass) := by
  rw [typeReferences]
  congr 1
  · split
    · next h => simp [h]
    · next h => simp [h, nameReferences]
  · simp

end Node

end SymbolRanges

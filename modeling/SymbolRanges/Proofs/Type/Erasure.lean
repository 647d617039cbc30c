import Mathlib.Data.List.Basic
import SymbolRanges.Type.Descriptor

/-!
# Descriptors and erasure

The erasure of a type drops type arguments and puts its bound for a type variable. A descriptor is
the text of an erasure (`TypeTerm.descriptorChars_eq`), and this text can be read back without
knowing where it ends: no text of an erasure is the beginning of another one
(`ErasedType.chars_append_inj`). So the parameters of a method can be told apart although nothing
stands between them, and two methods have the same descriptor exactly when their types have the same
erasures: `descriptor_eq_iff_erasures_eq`.
-/

set_option autoImplicit false

namespace SymbolRanges

/-! ### Erasure -/

/-- A type without type arguments and type variables. -/
inductive ErasedType where
  | primitive (type : PrimitiveType)
  /-- A class by its internal name, which has a slash between packages. -/
  | classType (internalName : String)
  | array (element : ErasedType)
  deriving DecidableEq

namespace TypeTerm

def erasure : TypeTerm → ErasedType
  | primitive type => .primitive type
  | classType binaryName _ => .classType (binaryName.map fun c => if c = '.' then '/' else c)
  | array element => .array element.erasure
  | freeVariable _ => .classType "java/lang/Object"
  | boundedVariable _ bound => bound.erasure

/-- The binary names of the classes that a type stands for; those in type arguments do not count. -/
def classNames : TypeTerm → List String
  | primitive _ => []
  | classType binaryName _ => [binaryName]
  | array element => element.classNames
  | freeVariable _ => []
  | boundedVariable _ bound => bound.classNames

end TypeTerm

/-- The binary names of the classes that the types of a method stand for. -/
def MethodType.classNames (method : MethodType) : List String :=
  method.parameters.flatMap TypeTerm.classNames ++ method.result.classNames

/-! ### The text of an erasure -/

namespace ErasedType

def chars : ErasedType → List Char
  | primitive type => [type.letter]
  | classType internalName => 'L' :: internalName.toList ++ [';']
  | array element => '[' :: element.chars

/-- No class name holds the character that ends it in a text. -/
def IsPlain : ErasedType → Prop
  | primitive _ => True
  | classType internalName => ';' ∉ internalName.toList
  | array element => element.IsPlain

end ErasedType

/-- The descriptor of a type spells its erasure. -/
theorem TypeTerm.descriptorChars_eq (type : TypeTerm) :
    type.descriptorChars = type.erasure.chars := by
  induction type using TypeTerm.erasure.induct with
  | case1 type => rfl
  | case2 binaryName arguments =>
    rw [descriptorChars, erasure, ErasedType.chars, String.toList_map]
    rfl
  | case3 element ih => rw [descriptorChars, erasure, ErasedType.chars, ih]
  | case4 name =>
    show classDescriptor rootClass.toList = (ErasedType.classType "java/lang/Object").chars
    decide
  | case5 name bound ih => exact ih

/-- The descriptor of a method spells the erasures of its parameters and of its result. -/
theorem MethodType.descriptorChars_eq (method : MethodType) :
    method.descriptorChars =
      '(' :: (method.parameters.map TypeTerm.erasure).flatMap ErasedType.chars ++
        ')' :: method.result.erasure.chars := by
  have htypes : TypeTerm.descriptorChars = fun type => type.erasure.chars :=
    funext TypeTerm.descriptorChars_eq
  rw [descriptorChars, htypes, List.flatMap_map]

/-- A slash for a dot ends no class name. -/
theorem TypeTerm.erasure_isPlain {type : TypeTerm}
    (h : ∀ name ∈ type.classNames, ';' ∉ name.toList) : type.erasure.IsPlain := by
  induction type using TypeTerm.erasure.induct with
  | case1 type => trivial
  | case2 binaryName arguments =>
    have hname : ';' ∉ binaryName.toList := h binaryName List.mem_cons_self
    show ';' ∉ (binaryName.map fun c => if c = '.' then '/' else c).toList
    rw [String.toList_map, List.mem_map]
    rintro ⟨c, hc, hsemicolon⟩
    split at hsemicolon
    · cases hsemicolon
    · exact hname (hsemicolon ▸ hc)
  | case3 element ih => exact ih h
  | case4 name =>
    show ';' ∉ "java/lang/Object".toList
    decide
  | case5 name bound ih => exact ih h

/-! ### Reading a text back -/

/-- What a terminator ends can be told from what comes after. -/
theorem terminated_append_inj {s : Char} {xs ys us vs : List Char} (hx : s ∉ xs) (hy : s ∉ ys)
    (h : xs ++ s :: us = ys ++ s :: vs) : xs = ys ∧ us = vs := by
  induction xs generalizing ys with
  | nil =>
    cases ys with
    | nil => exact ⟨rfl, (List.cons.inj h).2⟩
    | cons y ys => exact absurd (List.mem_cons.2 (.inl (List.cons.inj h).1)) hy
  | cons x xs ih =>
    cases ys with
    | nil => exact absurd (List.mem_cons.2 (.inl (List.cons.inj h).1.symm)) hx
    | cons y ys =>
      obtain ⟨rfl, hrest⟩ := List.cons.inj h
      obtain ⟨rfl, rfl⟩ := ih (List.not_mem_of_not_mem_cons hx) (List.not_mem_of_not_mem_cons hy)
        hrest
      exact ⟨rfl, rfl⟩

/-- The letters of primitive types are different, and none of them starts another type or ends the
parameters of a method. -/
theorem PrimitiveType.letter_ne (type : PrimitiveType) :
    type.letter ≠ 'L' ∧ type.letter ≠ '[' ∧ type.letter ≠ ')' ∧
      ∀ other : PrimitiveType, type.letter = other.letter → type = other := by
  cases type <;> refine ⟨by decide, by decide, by decide, fun other => ?_⟩ <;>
    cases other <;> decide

namespace ErasedType

/-- A text that begins with the text of an erasure says which erasure this is and what comes after:
the first character tells primitive types, classes and arrays apart, and the name of a class ends at
the first semicolon. -/
theorem chars_append_inj {a b : ErasedType} (ha : a.IsPlain) (hb : b.IsPlain) {xs ys : List Char}
    (h : a.chars ++ xs = b.chars ++ ys) : a = b ∧ xs = ys := by
  induction a generalizing b with
  | primitive type =>
    obtain ⟨hclass, harray, -, hinj⟩ := type.letter_ne
    cases b with
    | primitive other =>
      obtain ⟨hletter, hrest⟩ := List.cons.inj h
      exact ⟨congrArg primitive (hinj other hletter), hrest⟩
    | classType name => exact absurd (List.cons.inj h).1 hclass
    | array element => exact absurd (List.cons.inj h).1 harray
  | classType name =>
    cases b with
    | primitive other => exact absurd (List.cons.inj h).1.symm other.letter_ne.1
    | classType other =>
      simp only [chars, List.cons_append, List.append_assoc, List.nil_append, List.cons.injEq,
        true_and] at h
      obtain ⟨hname, hrest⟩ := terminated_append_inj ha hb h
      exact ⟨congrArg classType (String.toList_inj.1 hname), hrest⟩
    | array element => cases (List.cons.inj h).1
  | array element ih =>
    cases b with
    | primitive other => exact absurd (List.cons.inj h).1.symm other.letter_ne.2.1
    | classType name => cases (List.cons.inj h).1
    | array other =>
      obtain ⟨rfl, hrest⟩ := ih (b := other) ha hb (List.cons.inj h).2
      exact ⟨rfl, hrest⟩

/-- No erasure begins like the end of the parameters of a method. -/
theorem chars_append_ne (a : ErasedType) (xs ys : List Char) : a.chars ++ xs ≠ ')' :: ys := by
  intro h
  cases a with
  | primitive type => exact type.letter_ne.2.2.1 (List.cons.inj h).1
  | classType name => cases (List.cons.inj h).1
  | array element => cases (List.cons.inj h).1

/-- Erasures one behind the other can be told apart, up to the end of the parameters. -/
theorem flatMap_chars_append_inj {as bs : List ErasedType} (ha : ∀ a ∈ as, a.IsPlain)
    (hb : ∀ b ∈ bs, b.IsPlain) {xs ys : List Char}
    (h : as.flatMap chars ++ ')' :: xs = bs.flatMap chars ++ ')' :: ys) : as = bs ∧ xs = ys := by
  induction as generalizing bs with
  | nil =>
    cases bs with
    | nil => exact ⟨rfl, (List.cons.inj h).2⟩
    | cons b bs =>
      rw [List.flatMap_cons, List.append_assoc] at h
      exact absurd h.symm (b.chars_append_ne _ _)
  | cons a as ih =>
    rw [List.flatMap_cons, List.append_assoc] at h
    cases bs with
    | nil => exact absurd h (a.chars_append_ne _ _)
    | cons b bs =>
      rw [List.flatMap_cons, List.append_assoc] at h
      obtain ⟨ha', has⟩ := List.forall_mem_cons.1 ha
      obtain ⟨hb', hbs⟩ := List.forall_mem_cons.1 hb
      obtain ⟨rfl, hrest⟩ := chars_append_inj ha' hb' h
      obtain ⟨rfl, hrest'⟩ := ih has hbs hrest
      exact ⟨rfl, hrest'⟩

end ErasedType

/-- Two methods whose classes have names without semicolons have the same descriptor exactly when
they have as many parameters, and the erasures of the parameters, one by one, and of the results are
equal. -/
theorem descriptor_eq_iff_erasures_eq (m₁ m₂ : MethodType)
    (h₁ : ∀ name ∈ m₁.classNames, ';' ∉ name.toList)
    (h₂ : ∀ name ∈ m₂.classNames, ';' ∉ name.toList) :
    m₁.descriptor = m₂.descriptor ↔
      m₁.parameters.map TypeTerm.erasure = m₂.parameters.map TypeTerm.erasure ∧
      m₁.result.erasure = m₂.result.erasure := by
  have hparameters {m : MethodType} (h : ∀ name ∈ m.classNames, ';' ∉ name.toList) :
      ∀ e ∈ m.parameters.map TypeTerm.erasure, e.IsPlain := by
    intro e he
    obtain ⟨type, htype, rfl⟩ := List.mem_map.1 he
    exact TypeTerm.erasure_isPlain fun name hname =>
      h name (List.mem_append_left _ (List.mem_flatMap.2 ⟨type, htype, hname⟩))
  have hresult {m : MethodType} (h : ∀ name ∈ m.classNames, ';' ∉ name.toList) :
      m.result.erasure.IsPlain :=
    TypeTerm.erasure_isPlain fun name hname => h name (List.mem_append_right _ hname)
  have hchars : m₁.descriptor = m₂.descriptor ↔ m₁.descriptorChars = m₂.descriptorChars :=
    String.ofList_inj
  rw [hchars, MethodType.descriptorChars_eq, MethodType.descriptorChars_eq]
  constructor
  · intro h
    obtain ⟨hsame, hrest⟩ := ErasedType.flatMap_chars_append_inj (hparameters h₁) (hparameters h₂)
      (List.cons.inj h).2
    rw [← List.append_nil m₁.result.erasure.chars,
      ← List.append_nil m₂.result.erasure.chars] at hrest
    exact ⟨hsame, (ErasedType.chars_append_inj (hresult h₁) (hresult h₂) hrest).1⟩
  · rintro ⟨hsame, hresults⟩
    rw [hsame, hresults]

/-- A generic method, with an array of a bounded type variable, and what is left of it without
generics have the same descriptor. -/
theorem descriptor_eq_iff_erasures_eq_generic :
    let string : TypeTerm := .classType "java.lang.String" []
    let bound : TypeTerm := .classType "java.lang.Comparable" [.freeVariable "T"]
    let generic : MethodType :=
      ⟨[.classType "java.util.List" [string], .array (.boundedVariable "T" bound)],
        .freeVariable "U"⟩
    let raw : MethodType :=
      ⟨[.classType "java.util.List" [], .array (.classType "java.lang.Comparable" [])],
        .classType "java.lang.Object" []⟩
    (∀ name ∈ generic.classNames, ';' ∉ name.toList) ∧
    (∀ name ∈ raw.classNames, ';' ∉ name.toList) ∧ generic.descriptor = raw.descriptor := by
  intro string bound generic raw
  have hgeneric : ∀ name ∈ generic.classNames, ';' ∉ name.toList := by decide
  have hraw : ∀ name ∈ raw.classNames, ';' ∉ name.toList := by decide
  refine ⟨hgeneric, hraw, (descriptor_eq_iff_erasures_eq generic raw hgeneric hraw).2 ?_⟩
  decide +kernel

/-- A semicolon in the name of a class makes it look like two classes. -/
example : (MethodType.ofConstructor [.classType "A;LB" []]).descriptor =
    (MethodType.ofConstructor [.classType "A" [], .classType "B" []]).descriptor := by decide

end SymbolRanges

import SymbolRanges.Extraction.File
import SymbolRanges.Proofs.Walk.Resolution

/-!
# What the extraction of a file decides

Every declaration of a file decides whether what it mentions resolves (`scanDeclaration_decides`),
so the scan of a well-formed tree decides whether all of them do. `Resolver.ResolvesDeclaration`
follows the order in which a declaration is scanned.
-/

set_option autoImplicit false

namespace SymbolRanges

namespace Resolver

/-- What a field mentions resolves: its modifiers, its type and its initializer. -/
def ResolvesField (resolver : Resolver) (n : Node) : Prop :=
  resolver.ResolvesPart n .modifierList ∧ resolver.ResolvesTypeOf n ∧
    ∀ initializer, n.initializer? = some initializer → resolver.ResolvesCode initializer

/-- What a parameter mentions resolves: its modifiers and its type. -/
def ResolvesParameter (resolver : Resolver) (n : Node) : Prop :=
  resolver.ResolvesPart n .modifierList ∧ resolver.ResolvesTypeOf n

/-- The types of a method are known, and what its header and its body mention resolves. -/
def ResolvesMethod (resolver : Resolver) (n : Node) : Prop :=
  (resolver.methodType? n).isSome = true ∧ resolver.ResolvesPart n .modifierList ∧
    resolver.ResolvesPart n .typeParameterList ∧ resolver.ResolvesTypeOf n ∧
    (∀ p ∈ n.parameters, resolver.ResolvesParameter p) ∧ resolver.ResolvesPart n .throwsList ∧
    resolver.ResolvesPart n .codeBlock

/-- What a declaration mentions resolves. Classes, enum constants and methods without a name are
passed over, and a class answers for its header only. -/
def ResolvesDeclaration (resolver : Resolver) : Declaration → Prop
  | .classDecl _ n => n.nameToken?.isSome = true → ∀ part ∈ n.header, resolver.ResolvesCode part
  | .field _ n => resolver.ResolvesField n
  | .enumConstant _ n =>
    n.nameToken?.isSome = true → ∀ child ∈ n.childNodes, resolver.ResolvesCode child
  | .method _ n => n.nameToken?.isSome = true → resolver.ResolvesMethod n
  | .initializer _ n => resolver.ResolvesCode n

end Resolver

namespace FileContext

variable (context : FileContext)

/-- A class or member without a name does not fail the file. -/
theorem warnNameless_decides {σ : Type} {allowed : FileFailure → Prop} (n : Node)
    (what : String) : (context.warnNameless n what : Scan σ Unit).Decides allowed True :=
  context.warning_decides _ _ _

/-- A class with a name passes only if its header resolves. -/
theorem scanClass_decides (qualifier : Option String) (n : Node) :
    (context.scanClass qualifier n).Decides (FileFailure.IsUnresolved context.file)
      (context.resolver.ResolvesDeclaration (.classDecl qualifier n)) := by
  unfold scanClass
  split
  · next h =>
    exact (context.warnNameless_decides n _).congr (by simp [Resolver.ResolvesDeclaration, h])
  · next name h =>
    apply ((context.record_decides _ _).bind fun _ => ?_).congr
    · exact iff_of_eq (true_and _)
    · apply Scan.Decides.fresh
      have hheader := Scan.Decides.forM n.header fun part _ =>
        Scope.walk_decides ⟨context, qualify qualifier name.text, .outsideMethod⟩ part
      exact hheader.congr (by simp [Resolver.ResolvesDeclaration, h])

/-- A field passes only if its modifiers, its type and its initializer resolve. -/
theorem scanField_decides (owner : String) (n : Node) :
    (context.scanField owner n).Decides (FileFailure.IsUnresolved context.file)
      (context.resolver.ResolvesField n) := by
  unfold scanField
  apply Scan.Decides.fresh
  apply (Scope.walkPart_decides ⟨context, owner, .outsideMethod⟩ n .modifierList).bind
  intro _
  apply (Scope.recordDeclaredType_decides ⟨context, owner, .outsideMethod⟩ n).bind
  intro _
  -- the name of a field, or the lack of one, decides nothing
  have hnone (h : n.initializer? = none) :
      (pure () : Walk Unit).Decides (FileFailure.IsUnresolved context.file)
        (∀ initializer, n.initializer? = some initializer →
          context.resolver.ResolvesCode initializer) :=
    (Scan.Decides.pure ()).congr (by simp [h])
  have hsome {initializer : Node} (h : n.initializer? = some initializer) :
      (Scope.walk ⟨context, owner, .outsideMethod⟩ initializer).Decides
        (FileFailure.IsUnresolved context.file)
        (∀ initializer, n.initializer? = some initializer →
          context.resolver.ResolvesCode initializer) :=
    (Scope.walk_decides ⟨context, owner, .outsideMethod⟩ initializer).congr (by simp [h])
  cases n.nameToken? with
  | none =>
    refine ((context.warnNameless_decides n _).bind fun _ => ?_).congr (iff_of_eq (true_and _))
    split
    · next h => exact hnone h
    · next h => exact hsome h
  | some name =>
    refine ((context.record_decides _ _).bind fun _ => ?_).congr (iff_of_eq (true_and _))
    split
    · next h => exact hnone h
    · next h => exact hsome h

/-- An enum constant with a name passes only if what is below it resolves. -/
theorem scanEnumConstant_decides (owner : String) (n : Node) :
    (context.scanEnumConstant owner n).Decides (FileFailure.IsUnresolved context.file)
      (context.resolver.ResolvesDeclaration (.enumConstant owner n)) := by
  unfold scanEnumConstant
  split
  · next h =>
    exact (context.warnNameless_decides n _).congr (by simp [Resolver.ResolvesDeclaration, h])
  · next name h =>
    apply ((context.record_decides _ _).bind fun _ => ?_).congr
    · exact iff_of_eq (true_and _)
    · apply Scan.Decides.fresh
      have hchildren := Scan.Decides.forM n.childNodes fun child _ =>
        Scope.walk_decides ⟨context, owner, .outsideMethod⟩ child
      exact hchildren.congr (by simp [Resolver.ResolvesDeclaration, h])

/-- The parameters of a method pass only if what each of them mentions resolves. -/
theorem introduceParameters_decides (scope : Scope) (parameters : List Node) :
    (introduceParameters scope parameters).Decides (FileFailure.IsUnresolved scope.file)
      (∀ p ∈ parameters, scope.resolver.ResolvesParameter p) := by
  have h := Scan.Decides.forM parameters.zipIdx fun entry _ =>
    scope.introduceParameter_decides entry.2 entry.1
  apply h.congr
  have hall : (∀ p ∈ parameters.zipIdx.map Prod.fst, scope.resolver.ResolvesParameter p) ↔
      ∀ entry ∈ parameters.zipIdx, scope.resolver.ResolvesParameter entry.1 := List.forall_mem_map
  rw [List.zipIdx_map_fst] at hall
  exact hall.symm

/-- The walk of a method passes only if its parts, its type and its parameters resolve. -/
theorem walkMethod_decides (n : Node) (scope : Scope) :
    (walkMethod n scope).Decides (FileFailure.IsUnresolved scope.file)
      (scope.resolver.ResolvesPart n .modifierList ∧
        scope.resolver.ResolvesPart n .typeParameterList ∧ scope.resolver.ResolvesTypeOf n ∧
        (∀ p ∈ n.parameters, scope.resolver.ResolvesParameter p) ∧
        scope.resolver.ResolvesPart n .throwsList ∧ scope.resolver.ResolvesPart n .codeBlock) := by
  unfold walkMethod
  apply (scope.walkPart_decides n .modifierList).bind
  intro _
  apply (scope.walkPart_decides n .typeParameterList).bind
  intro _
  apply (scope.recordDeclaredType_decides n).bind
  intro _
  apply (introduceParameters_decides scope n.parameters).bind
  intro _
  apply (scope.walkPart_decides n .throwsList).bind
  intro _
  exact scope.walkPart_decides n .codeBlock

/-- A method with a name passes only if its types are known and what it mentions resolves. -/
theorem scanMethod_decides (owner : String) (n : Node) :
    (context.scanMethod owner n).Decides (FileFailure.IsUnresolved context.file)
      (context.resolver.ResolvesDeclaration (.method owner n)) := by
  unfold scanMethod
  split
  · next h =>
    exact (context.warnNameless_decides n _).congr (by simp [Resolver.ResolvesDeclaration, h])
  · next name h =>
    split
    · next htype =>
      apply (Scan.Decides.fail ?_ _).congr
      · simp [Resolver.ResolvesDeclaration, Resolver.ResolvesMethod, h, htype]
      · refine ⟨rfl, ?_⟩
        intro hcode
        cases hcode
    · next type htype =>
      have hwalk := walkMethod_decides n ⟨context, owner, ⟨name.text, type.descriptor⟩⟩
      apply ((context.record_decides _ _).bind fun _ => Scan.Decides.fresh hwalk _).congr
      simp [Resolver.ResolvesDeclaration, Resolver.ResolvesMethod, h, htype]

/-- A declaration passes only if what it mentions resolves. -/
theorem scanDeclaration_decides (d : Declaration) :
    (context.scanDeclaration d).Decides (FileFailure.IsUnresolved context.file)
      (context.resolver.ResolvesDeclaration d) := by
  cases d with
  | classDecl qualifier n => exact context.scanClass_decides qualifier n
  | field owner n => exact context.scanField_decides owner n
  | enumConstant owner n => exact context.scanEnumConstant_decides owner n
  | method owner n => exact context.scanMethod_decides owner n
  | initializer owner n =>
    exact Scan.Decides.fresh (Scope.walk_decides ⟨context, owner, .classInitializer⟩ n) _

/-- The package statement never fails the file. -/
theorem recordPackage_decides {allowed : FileFailure → Prop} (root : Node) :
    (context.recordPackage root).Decides allowed True := by
  unfold recordPackage
  split
  · split
    · exact context.record_decides _ _
    · exact Scan.Decides.pure _
  · exact Scan.Decides.pure _

/-- The imports never fail the file. -/
theorem recordImports_decides {allowed : FileFailure → Prop} (root : Node) :
    (context.recordImports root).Decides allowed True := by
  have himport (n : Node) : (context.recordImport n).Decides allowed True := by
    unfold recordImport
    split
    · exact context.record_decides _ _
    · exact Scan.Decides.pure _
  unfold recordImports
  split
  · exact (Scan.Decides.forM _ fun n _ => himport n).congr (by simp)
  · exact Scan.Decides.pure _

/-- A well-formed tree passes only if what its declarations mention resolves. -/
theorem scanRoot_decides_of_wellFormed {root : Node} (h : root.malformation? = none) :
    (context.scanRoot root).Decides (FileFailure.IsUnresolved context.file)
      (∀ d ∈ root.declarations, context.resolver.ResolvesDeclaration d) := by
  have hdeclarations := Scan.Decides.forM root.declarations fun d _ =>
    context.scanDeclaration_decides d
  unfold scanRoot
  rw [h]
  apply ((context.recordPackage_decides root).bind fun _ =>
    (context.recordImports_decides root).bind fun _ => hdeclarations).congr
  simp

/-- A malformed tree always fails, at the place that shows it. -/
theorem run_scanRoot_of_malformed {root : Node} {malformation : Malformation} {position : Nat}
    (h : root.malformation? = some (malformation, position)) (s : Unit) :
    (context.scanRoot root).run s =
      ⟨[.diagnostic ((FileFailure.malformedTree context.file
          (context.offsets.offset position)).diagnostic malformation.message)], s,
        .error (.failed (.malformedTree context.file (context.offsets.offset position)))⟩ := by
  unfold scanRoot
  rw [h]
  rfl

end FileContext

end SymbolRanges

import Mathlib.Data.List.Forall2
import SymbolRanges.Proofs.Scan.Visits

/-!
# Two scans side by side

`Scan.Alike` compares two scans that start in related states: they write journals of the same
length with related entries, end in related states, and both give related values or both stop for
related reasons. It is proved once for every way of building a scan, so that two runs over
different trees or with different options are compared step by step.
-/

set_option autoImplicit false

namespace SymbolRanges

/-- Two results that both are values, and related, or both are reasons to stop, and related. -/
inductive ResultsAlike {α β : Type} (stops : Stop → Stop → Prop) (values : α → β → Prop) :
    Except Stop α → Except Stop β → Prop
  | ok {a : α} {b : β} (h : values a b) : ResultsAlike stops values (.ok a) (.ok b)
  | error {s t : Stop} (h : stops s t) : ResultsAlike stops values (.error s) (.error t)

/-- Of two results that are alike, both are values or neither is. -/
theorem ResultsAlike.eq_ok_iff {stops : Stop → Stop → Prop} {r r' : Except Stop Unit}
    (h : ResultsAlike stops Eq r r') : r = .ok () ↔ r' = .ok () := by
  cases h with
  | ok h => exact ⟨fun _ => rfl, fun _ => rfl⟩
  | error h => exact ⟨nofun, nofun⟩

/-- Two results that are alike become equal once their reasons to stop are mapped to the same. -/
theorem ResultsAlike.mapError_eq {stops : Stop → Stop → Prop} {r r' : Except Stop Unit}
    (h : ResultsAlike stops Eq r r') {f : Stop → Stop} (hf : ∀ s t, stops s t → f s = f t) :
    r.mapError f = r'.mapError f := by
  cases h with
  | ok h => rfl
  | error h => exact congrArg Except.error (hf _ _ h)

/-- Two outcomes with related journals, states and results. -/
structure Outcome.Alike {σ τ α β : Type} (entries : Entry → Entry → Prop)
    (stops : Stop → Stop → Prop) (states : σ → τ → Prop) (values : α → β → Prop)
    (o : Outcome σ α) (p : Outcome τ β) : Prop where
  journal : List.Forall₂ entries o.journal p.journal
  state : states o.state p.state
  result : ResultsAlike stops values o.result p.result

namespace Scan

variable {σ τ σ' τ' α β γ δ : Type} {entries : Entry → Entry → Prop} {stops : Stop → Stop → Prop}
  {states : σ → τ → Prop} {values : α → β → Prop}

/-- Two scans that lead from related states to related outcomes. -/
def Alike (entries : Entry → Entry → Prop) (stops : Stop → Stop → Prop) (states : σ → τ → Prop)
    (values : α → β → Prop) (x : Scan σ α) (y : Scan τ β) : Prop :=
  ∀ s t, states s t → Outcome.Alike entries stops states values (x.run s) (y.run t)

namespace Alike

/-- Giving related values is alike. -/
theorem pure {a : α} {b : β} (h : values a b) :
    Alike entries stops states values (Pure.pure a) (Pure.pure b) :=
  fun _ _ hstates => ⟨.nil, hstates, .ok h⟩

/-- Reading related states is alike. -/
theorem get : Alike entries stops states states (Scan.get : Scan σ σ) (Scan.get : Scan τ τ) :=
  fun _ _ hstates => ⟨.nil, hstates, .ok hstates⟩

/-- Changing related states to related ones is alike. -/
theorem modify {f : σ → σ} {g : τ → τ} (h : ∀ s t, states s t → states (f s) (g t)) :
    Alike entries stops states Eq (Scan.modify f) (Scan.modify g) :=
  fun s t hstates => ⟨.nil, h s t hstates, .ok rfl⟩

/-- Writing related entries is alike. -/
theorem write {e f : Entry} (h : entries e f) :
    Alike entries stops states Eq (Scan.write e) (Scan.write f) :=
  fun _ _ hstates => ⟨.cons h .nil, hstates, .ok rfl⟩

/-- Stopping for related reasons is alike. -/
theorem stop {s t : Stop} (h : stops s t) :
    Alike entries stops states values (Scan.stop s) (Scan.stop t) :=
  fun _ _ hstates => ⟨.nil, hstates, .error h⟩

/-- Scans in a row are alike if the first are alike, and the second are for all related values. -/
theorem bind {x : Scan σ α} {y : Scan τ β} {f : α → Scan σ γ} {g : β → Scan τ δ}
    {values' : γ → δ → Prop} (hx : Alike entries stops states values x y)
    (hf : ∀ a b, values a b → Alike entries stops states values' (f a) (g b)) :
    Alike entries stops states values' (x >>= f) (y >>= g) := by
  intro s t hstates
  obtain ⟨hjournal, hstate, hresult⟩ := hx s t hstates
  rw [run_bind, run_bind]
  unfold Outcome.andThen
  revert hresult
  generalize (x.run s).result = p
  generalize (y.run t).result = q
  intro hresult
  cases hresult with
  | error h => exact ⟨hjournal, hstate, .error h⟩
  | ok h =>
    obtain ⟨hjournal', hstate', hresult'⟩ := hf _ _ h _ _ hstate
    exact ⟨List.rel_append hjournal hjournal', hstate', hresult'⟩

/-- Two scans in a row, of which the first gives no value of interest. -/
theorem andThen {x : Scan σ Unit} {y : Scan τ Unit} {f : Unit → Scan σ γ} {g : Unit → Scan τ δ}
    {values' : γ → δ → Prop} (hx : Alike entries stops states Eq x y)
    (hf : Alike entries stops states values' (f ()) (g ())) :
    Alike entries stops states values' (x >>= f) (y >>= g) :=
  hx.bind fun _ _ _ => hf

/-- Failing is alike if the diagnostics and the failures are related. -/
theorem fail {failure failure' : FileFailure} {message : String}
    (hentry : entries (.diagnostic (failure.diagnostic message))
      (.diagnostic (failure'.diagnostic message)))
    (hstop : stops (.failed failure) (.failed failure')) :
    Alike entries stops states values (Scan.fail failure message) (Scan.fail failure' message) :=
  (write hentry).andThen (stop hstop)

/-- Two loops over related lists whose steps are alike. -/
theorem forM {f : α → Scan σ Unit} {g : β → Scan τ Unit} {xs : List α} {ys : List β}
    (h : List.Forall₂ values xs ys)
    (hf : ∀ a b, values a b → Alike entries stops states Eq (f a) (g b)) :
    Alike entries stops states Eq (xs.forM f) (ys.forM g) := by
  induction h with
  | nil => exact pure rfl
  | cons hab _ ih => exact (hf _ _ hab).andThen ih

/-- Scans with states of their own are alike if they are from these states. -/
theorem fresh {states' : σ' → τ' → Prop} {s : σ'} {t : τ'} {x : Scan σ' α} {y : Scan τ' β}
    (hx : Alike entries stops states' values x y) (h : states' s t) :
    Alike entries stops states values (Scan.fresh s x) (Scan.fresh t y) := by
  intro _ _ hstates
  obtain ⟨hjournal, -, hresult⟩ := hx s t h
  exact ⟨hjournal, hstates, hresult⟩

end Alike

end Scan

end SymbolRanges

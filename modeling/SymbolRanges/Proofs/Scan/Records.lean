import SymbolRanges.Proofs.Scan.Visits

/-!
# What a scan records

Two properties of the records that a scan writes, each proved once for every way of building a
scan. `Scan.RecordsOnly` bounds them from above: whatever is recorded, also by a scan that stops,
has a property. `Scan.RecordsSome` bounds them from below: a scan that gives a value has recorded
something with the property.
-/

set_option autoImplicit false

namespace SymbolRanges

namespace Scan

variable {σ τ α β : Type} {P Q : Record → Prop}

/-- Everything that a scan records has a property. -/
def RecordsOnly (P : Record → Prop) (x : Scan σ α) : Prop :=
  ∀ s, ∀ r ∈ Journal.records (x.run s).journal, P r

/-- A scan that gives a value has recorded something with a property. -/
def RecordsSome (P : Record → Prop) (x : Scan σ α) : Prop :=
  ∀ s a, (x.run s).result = .ok a → ∃ r ∈ Journal.records (x.run s).journal, P r

/-- A scan that records nothing, because no entry of its journals is a record. -/
theorem recordsOnly_of_nil {x : Scan σ α} (h : ∀ s, Journal.records (x.run s).journal = []) :
    x.RecordsOnly P := by
  intro s r hr
  rw [h s] at hr
  cases hr

namespace RecordsOnly

/-- A weaker property holds of all records as well. -/
theorem mono {x : Scan σ α} (hx : x.RecordsOnly P) (h : ∀ r, P r → Q r) : x.RecordsOnly Q :=
  fun s r hr => h r (hx s r hr)

/-- Giving a value records nothing. -/
theorem pure (a : α) : (Pure.pure a : Scan σ α).RecordsOnly P :=
  recordsOnly_of_nil fun _ => rfl

/-- Reading the state records nothing. -/
theorem get : (Scan.get : Scan σ σ).RecordsOnly P :=
  recordsOnly_of_nil fun _ => rfl

/-- Changing the state records nothing. -/
theorem modify (f : σ → σ) : (Scan.modify f).RecordsOnly P :=
  recordsOnly_of_nil fun _ => rfl

/-- Stopping records nothing. -/
theorem stop (reason : Stop) : (Scan.stop reason : Scan σ α).RecordsOnly P :=
  recordsOnly_of_nil fun _ => rfl

/-- Failing records nothing. -/
theorem fail (failure : FileFailure) (message : String) :
    (Scan.fail failure message : Scan σ α).RecordsOnly P :=
  recordsOnly_of_nil fun _ => rfl

/-- Writing a diagnostic records nothing. -/
theorem diagnostic (d : Diagnostic) : (Scan.write (.diagnostic d) : Scan σ Unit).RecordsOnly P :=
  recordsOnly_of_nil fun _ => rfl

/-- Writing an event records nothing. -/
theorem note (event : Log.Event) : (Scan.write (.note event) : Scan σ Unit).RecordsOnly P :=
  recordsOnly_of_nil fun _ => rfl

/-- Recording a record with the property records only such records. -/
theorem record {r : Record} (h : P r) : (Scan.write (.record r) : Scan σ Unit).RecordsOnly P := by
  intro s r' hr'
  rw [List.mem_singleton.1 hr']
  exact h

/-- Two scans in a row record only what each of them records. -/
theorem bind {x : Scan σ α} {f : α → Scan σ β} (hx : x.RecordsOnly P)
    (hf : ∀ a, (f a).RecordsOnly P) : (x >>= f).RecordsOnly P := by
  intro s r hr
  rw [run_bind, Outcome.andThen] at hr
  cases hresult : (x.run s).result with
  | error stop =>
    rw [hresult] at hr
    exact hx s r hr
  | ok a =>
    rw [hresult] at hr
    dsimp only at hr
    rw [Journal.records_append] at hr
    rcases List.mem_append.1 hr with hfirst | hnext
    · exact hx s r hfirst
    · exact hf a _ r hnext

/-- A loop records only what its steps record. -/
theorem forM {f : α → Scan σ Unit} (xs : List α) (h : ∀ x ∈ xs, (f x).RecordsOnly P) :
    (xs.forM f).RecordsOnly P := by
  induction xs with
  | nil => exact pure ()
  | cons x rest ih =>
    have hx := h x List.mem_cons_self
    have hrest := ih fun y hy => h y (List.mem_cons_of_mem x hy)
    exact hx.bind fun _ => hrest

/-- A scan with a state of its own records only what it records from any state. -/
theorem fresh {x : Scan τ α} (hx : x.RecordsOnly P) (initial : τ) :
    (Scan.fresh initial x : Scan σ α).RecordsOnly P := by
  intro s
  exact hx initial

end RecordsOnly

namespace RecordsSome

/-- A weaker property holds of some record as well. -/
theorem mono {x : Scan σ α} (hx : x.RecordsSome P) (h : ∀ r, P r → Q r) : x.RecordsSome Q := by
  intro s a hok
  obtain ⟨r, hr, hP⟩ := hx s a hok
  exact ⟨r, hr, h r hP⟩

/-- Recording a record with the property records such a record. -/
theorem record {r : Record} (h : P r) : (Scan.write (.record r) : Scan σ Unit).RecordsSome P :=
  fun _ _ _ => ⟨r, List.mem_singleton_self r, h⟩

/-- A scan that fails gives no value, so there is nothing that it must have recorded. -/
theorem fail (failure : FileFailure) (message : String) :
    (Scan.fail failure message : Scan σ α).RecordsSome P := by
  intro s a hok
  cases hok

/-- What the first of two scans in a row records is recorded by both together. -/
theorem bind_left {x : Scan σ α} (hx : x.RecordsSome P) (f : α → Scan σ β) :
    (x >>= f).RecordsSome P := by
  intro s b hok
  obtain ⟨a, hxok, -⟩ := result_bind_eq_ok hok
  obtain ⟨r, hr, hP⟩ := hx s a hxok
  rw [run_bind_of_ok hxok, Journal.records_append]
  exact ⟨r, List.mem_append_left _ hr, hP⟩

/-- What the second of two scans in a row records is recorded by both together. -/
theorem bind_right (x : Scan σ α) {f : α → Scan σ β} (hf : ∀ a, (f a).RecordsSome P) :
    (x >>= f).RecordsSome P := by
  intro s b hok
  obtain ⟨a, hxok, hfok⟩ := result_bind_eq_ok hok
  obtain ⟨r, hr, hP⟩ := hf a _ b hfok
  rw [run_bind_of_ok hxok, Journal.records_append]
  exact ⟨r, List.mem_append_right _ hr, hP⟩

/-- A loop records what one of its steps records. -/
theorem forM {f : α → Scan σ Unit} {xs : List α} {x : α} (hx : x ∈ xs)
    (h : (f x).RecordsSome P) : (xs.forM f).RecordsSome P := by
  induction xs with
  | nil => cases hx
  | cons y rest ih =>
    rcases List.mem_cons.1 hx with rfl | hrest
    · exact h.bind_left _
    · exact bind_right _ fun _ => ih hrest

/-- A scan with a state of its own records what it records from any state. -/
theorem fresh {x : Scan τ α} (hx : x.RecordsSome P) (initial : τ) :
    (Scan.fresh initial x : Scan σ α).RecordsSome P := by
  intro s
  exact hx initial

end RecordsSome

end Scan

end SymbolRanges

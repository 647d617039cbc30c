import Mathlib.Data.List.Basic
import SymbolRanges.Extraction.Scan

/-!
# The visits of a loop

A loop performs its steps one after the other until one stops. `Scan.visits` lists the steps that
it performs, each with what it wrote, so that a theorem can speak of one step of a run and of the
steps before it. The journal of the loop is what its visits wrote (`journal_forM`), and a visit is
performed from the state that the steps before it lead to (`exists_of_visits_eq_append`).
-/

set_option autoImplicit false

namespace SymbolRanges

/-- A step of a loop, with what it wrote. -/
structure Visit (α : Type) where
  step : α
  journal : Journal

namespace Scan

variable {σ α β : Type}

/-- A scan that gave a value is continued from the state that it reached. -/
theorem run_bind_of_ok {x : Scan σ α} {f : α → Scan σ β} {s : σ} {a : α}
    (h : (x.run s).result = .ok a) :
    (x >>= f).run s =
      ⟨(x.run s).journal ++ ((f a).run (x.run s).state).journal,
        ((f a).run (x.run s).state).state, ((f a).run (x.run s).state).result⟩ := by
  rw [run_bind, Outcome.andThen, h]

/-- Two scans in a row give a value only if both do. -/
theorem result_bind_eq_ok {x : Scan σ α} {f : α → Scan σ β} {s : σ} {b : β}
    (h : ((x >>= f).run s).result = .ok b) :
    ∃ a, (x.run s).result = .ok a ∧ ((f a).run (x.run s).state).result = .ok b := by
  rw [run_bind, Outcome.andThen] at h
  cases hx : (x.run s).result with
  | error stop =>
    rw [hx] at h
    cases h
  | ok a =>
    rw [hx] at h
    exact ⟨a, rfl, h⟩

/-- A loop over nothing does nothing. -/
@[simp] theorem forM_nil (f : α → Scan σ Unit) : List.forM [] f = pure () := rfl

/-- A loop performs its first step and then the others. -/
@[simp] theorem forM_cons (f : α → Scan σ Unit) (x : α) (rest : List α) :
    (x :: rest).forM f = (f x >>= fun _ => rest.forM f) := rfl

/-- A loop over two lists performs the steps of the first and then those of the second. -/
theorem forM_append (f : α → Scan σ Unit) (xs ys : List α) :
    (xs ++ ys).forM f = (xs.forM f >>= fun _ => ys.forM f) := by
  rw [List.forM_eq_forM, List.forM_append]

/-- A loop over lists of elements is a loop of loops. -/
theorem forM_flatMap (f : β → Scan σ Unit) (g : α → List β) (xs : List α) :
    (xs.flatMap g).forM f = xs.forM fun x => (g x).forM f := by
  induction xs with
  | nil => rfl
  | cons x rest ih => rw [List.flatMap_cons, forM_append, ih, forM_cons]

/-- A loop over mapped elements maps each element first. -/
theorem forM_map (f : β → Scan σ Unit) (g : α → β) (xs : List α) :
    (xs.map g).forM f = xs.forM fun x => f (g x) := by
  rw [List.forM_eq_forM, List.forM_eq_forM, List.forM_map]

/-- A loop may leave out steps that do nothing. -/
theorem forM_filter {f : α → Scan σ Unit} {p : α → Bool} (h : ∀ x, p x = false → f x = pure ())
    (xs : List α) : (xs.filter p).forM f = xs.forM f := by
  induction xs with
  | nil => rfl
  | cons x rest ih =>
    cases hx : p x with
    | false => rw [List.filter_cons_of_neg (by simp [hx]), ih, forM_cons, h x hx, pure_bind]
    | true => rw [List.filter_cons_of_pos hx, forM_cons, forM_cons, ih]

/-- The steps that a loop performs from a state on, up to the first that stops, each with what it
wrote. -/
def visits (f : α → Scan σ Unit) : List α → σ → List (Visit α)
  | [], _ => []
  | x :: rest, s =>
    let o := (f x).run s
    ⟨x, o.journal⟩ ::
      match o.result with
      | .ok () => visits f rest o.state
      | .error _ => []

variable {f : α → Scan σ Unit}

/-- A first step that gives a value is visited, and the other visits follow from the state it
reached. -/
theorem visits_cons_of_ok {x : α} {rest : List α} {s : σ} (h : ((f x).run s).result = .ok ()) :
    visits f (x :: rest) s =
      ⟨x, ((f x).run s).journal⟩ :: visits f rest ((f x).run s).state := by
  rw [visits, h]

/-- A loop writes what its visits write. -/
theorem journal_forM (xs : List α) (s : σ) :
    ((xs.forM f).run s).journal = (visits f xs s).flatMap Visit.journal := by
  induction xs generalizing s with
  | nil => rfl
  | cons x rest ih =>
    rw [forM_cons]
    cases h : ((f x).run s).result with
    | ok u =>
      rw [run_bind_of_ok h, visits_cons_of_ok h, List.flatMap_cons, ih]
    | error stop =>
      rw [run_bind, Outcome.andThen, visits, h]
      exact (List.append_nil _).symm

/-- A loop gives a value if each of its steps does. -/
theorem result_forM_of_ok {xs : List α}
    (h : ∀ x ∈ xs, ∀ s, ((f x).run s).result = .ok ()) (s : σ) :
    ((xs.forM f).run s).result = .ok () := by
  induction xs generalizing s with
  | nil => rfl
  | cons x rest ih =>
    rw [forM_cons, run_bind_of_ok (h x List.mem_cons_self s)]
    exact ih (fun y hy => h y (List.mem_cons_of_mem x hy)) _

/-- A loop that gives a value has performed all of its steps. -/
theorem map_step_visits_of_ok {xs : List α} {s : σ} (h : ((xs.forM f).run s).result = .ok ()) :
    (visits f xs s).map Visit.step = xs := by
  induction xs generalizing s with
  | nil => rfl
  | cons x rest ih =>
    rw [forM_cons] at h
    obtain ⟨_, hx, hrest⟩ := result_bind_eq_ok h
    rw [visits_cons_of_ok hx, List.map_cons, ih hrest]

/-- A loop that gives a value makes a visit at each place, from the state that the steps before this
place lead to. -/
theorem visits_eq_of_ok {xs : List α} {s : σ} (h : ((xs.forM f).run s).result = .ok ()) :
    visits f xs s = (List.range xs.length).flatMap fun place => xs[place]?.toList.map fun x =>
      ⟨x, ((f x).run (((xs.take place).forM f).run s).state).journal⟩ := by
  induction xs generalizing s with
  | nil => rfl
  | cons x rest ih =>
    rw [forM_cons] at h
    obtain ⟨_, hx, hrest⟩ := result_bind_eq_ok h
    rw [visits_cons_of_ok hx, ih hrest, List.length_cons, List.range_succ_eq_map, List.flatMap_cons,
      List.flatMap_map, ← List.singleton_append]
    congr 1
    apply List.flatMap_congr
    intro place _
    have hstate : ((((x :: rest).take (place + 1)).forM f).run s).state =
        (((rest.take place).forM f).run ((f x).run s).state).state := by
      rw [List.take_succ_cons, forM_cons, run_bind_of_ok hx]
    rw [Nat.succ_eq_add_one, List.getElem?_cons_succ, hstate]

end Scan

end SymbolRanges

import SymbolRanges.Extraction.File
import SymbolRanges.Proofs.Scan.Visits

/-!
# Scans that share a ledger

The scans of a file write their records and diagnostics into one ledger, one after the other.
`LedgerM` hands the ledger on from each to the next, also when a scan stops, and `performFrom` runs
a scan this way: its writing steps enter what they write, and its other steps leave the ledger
alone.

An extraction is `Independent` of the ledger if it gives the same result whatever the ledger holds,
and only appends to it. The single steps are, and the ways of building a scan keep this
(`LedgerM.IgnoresLedger`). A loop of independent extractions that runs through has for its records
those that each step has alone (`LedgerM.Independent.alone_forM_of_ok`).
-/

set_option autoImplicit false

namespace SymbolRanges

/-! ### Ledgers -/

/-- The records and the diagnostics of a file so far. -/
@[ext] structure Ledger where
  records : List Record
  diagnostics : List Diagnostic
  deriving DecidableEq

namespace Ledger

instance : EmptyCollection Ledger := ⟨[], []⟩

instance : Append Ledger :=
  ⟨fun first second =>
    ⟨first.records ++ second.records, first.diagnostics ++ second.diagnostics⟩⟩

/-- An empty ledger holds no records. -/
@[simp] theorem records_empty : (∅ : Ledger).records = [] := rfl

/-- An empty ledger holds no diagnostics. -/
@[simp] theorem diagnostics_empty : (∅ : Ledger).diagnostics = [] := rfl

/-- The records of a ledger come before those appended to it. -/
@[simp] theorem records_append (first second : Ledger) :
    (first ++ second).records = first.records ++ second.records := rfl

/-- The diagnostics of a ledger come before those appended to it. -/
@[simp] theorem diagnostics_append (first second : Ledger) :
    (first ++ second).diagnostics = first.diagnostics ++ second.diagnostics := rfl

/-- Appending nothing changes nothing. -/
@[simp] theorem append_empty (ledger : Ledger) : ledger ++ ∅ = ledger := by
  ext1 <;> simp

/-- What is appended to an empty ledger is all that it holds. -/
@[simp] theorem empty_append (ledger : Ledger) : ∅ ++ ledger = ledger := by
  ext1 <;> simp

/-- Ledgers are appended in any grouping. -/
theorem append_assoc (first second third : Ledger) :
    first ++ second ++ third = first ++ (second ++ third) := by
  ext1 <;> simp

/-- Enters a record or a diagnostic. What is only logged leaves the ledger as it is. -/
def enter (ledger : Ledger) : Entry → Ledger
  | .record r => { ledger with records := ledger.records ++ [r] }
  | .diagnostic d => { ledger with diagnostics := ledger.diagnostics ++ [d] }
  | .note _ => ledger

/-- The ledger that a journal fills. -/
def ofJournal (journal : Journal) : Ledger := ⟨Journal.records journal, Journal.diagnostics journal⟩

/-- Journals one behind the other fill ledgers one behind the other. -/
theorem ofJournal_append (first second : Journal) :
    ofJournal (first ++ second) = ofJournal first ++ ofJournal second := by
  ext1
  · exact Journal.records_append first second
  · exact Journal.diagnostics_append first second

/-- Entering appends to the ledger what the entry fills alone. -/
theorem enter_eq (ledger : Ledger) (entry : Entry) :
    ledger.enter entry = ledger ++ ofJournal [entry] := by
  cases entry with
  | record r => exact Ledger.ext rfl (List.append_nil _).symm
  | diagnostic d => exact Ledger.ext (List.append_nil _).symm rfl
  | note event => exact (append_empty ledger).symm

/-- Entering a journal appends to the ledger what the journal fills alone. -/
theorem foldl_enter (journal : Journal) (ledger : Ledger) :
    journal.foldl enter ledger = ledger ++ ofJournal journal := by
  induction journal generalizing ledger with
  | nil => exact (append_empty ledger).symm
  | cons entry rest ih =>
    rw [List.foldl_cons, ih, enter_eq, append_assoc, ← ofJournal_append, List.singleton_append]

end Ledger

/-! ### Extraction into a ledger -/

/-- An extraction that is handed a ledger and hands it on, also when it stops. -/
abbrev LedgerM := ExceptT Stop (StateM Ledger)

namespace LedgerM

variable {α β : Type}

/-- What an extraction gives, and the ledger that it leaves. -/
def into (x : LedgerM α) (ledger : Ledger) : Except Stop α × Ledger := x.run.run ledger

/-- What an extraction gives and writes on a ledger of its own. -/
def alone (x : LedgerM α) : Except Stop α × Ledger := x.into ∅

/-- The extraction does not depend on the ledger that it is handed: it gives what it gives alone,
and appends to the ledger what it writes alone. -/
def Independent (x : LedgerM α) : Prop :=
  ∀ ledger, x.into ledger = (x.alone.1, ledger ++ x.alone.2)

/-- Extractions are the same if they do the same to every ledger. -/
@[ext] theorem ext {x y : LedgerM α} (h : ∀ ledger, x.into ledger = y.into ledger) : x = y :=
  funext h

/-- A loop performs its first step and then the others. -/
theorem forM_cons (f : α → LedgerM Unit) (x : α) (rest : List α) :
    (x :: rest).forM f = (f x >>= fun _ => rest.forM f) := rfl

/-- A loop may forget that its elements are members of the list. -/
theorem forM_attach (f : α → LedgerM Unit) (xs : List α) :
    (xs.attach.forM fun x => f x.1) = xs.forM f := by
  calc (xs.attach.forM fun x => f x.1)
      = (xs.attach.map Subtype.val).forM f := by
        rw [List.forM_eq_forM, List.forM_eq_forM, List.forM_map]
    _ = xs.forM f := by rw [List.attach_map_subtype_val]

/-- Loops over one list are the same if they do the same to each of its elements. -/
theorem forM_congr {f g : α → LedgerM Unit} {xs : List α} (h : ∀ x ∈ xs, f x = g x) :
    xs.forM f = xs.forM g := by
  induction xs with
  | nil => rfl
  | cons x rest ih =>
    obtain ⟨hx, hrest⟩ := List.forall_mem_cons.1 h
    rw [forM_cons, forM_cons, hx, ih hrest]

section Bind

variable {x : LedgerM α} {f : α → LedgerM β} {ledger next : Ledger}

/-- After an extraction that gave a value comes the next, on the ledger that it left. -/
theorem into_bind_of_ok {a : α} (h : x.into ledger = (.ok a, next)) :
    (x >>= f).into ledger = (f a).into next := by
  unfold into
  rw [ExceptT.run_bind, StateT.run_bind, show x.run.run ledger = (.ok a, next) from h]
  rfl

/-- After an extraction that stopped nothing comes. -/
theorem into_bind_of_error {stop : Stop} (h : x.into ledger = (.error stop, next)) :
    (x >>= f).into ledger = (.error stop, next) := by
  unfold into
  rw [ExceptT.run_bind, StateT.run_bind, show x.run.run ledger = (.error stop, next) from h]
  rfl

end Bind

namespace Independent

/-- An extraction that gives one result and appends one ledger to any is independent. -/
theorem of_into {x : LedgerM α} (result : Except Stop α) (appended : Ledger)
    (h : ∀ ledger, x.into ledger = (result, ledger ++ appended)) : x.Independent := by
  intro ledger
  have halone : x.alone = (result, appended) := by
    rw [alone, h, Ledger.empty_append]
  rw [h, halone]

/-- Giving a value is independent. -/
theorem pure (a : α) : (Pure.pure a : LedgerM α).Independent :=
  of_into (.ok a) ∅ fun ledger => by
    rw [Ledger.append_empty]
    rfl

variable {x : LedgerM α} {f : α → LedgerM β}

/-- Two independent extractions in a row are independent. -/
theorem bind (hx : x.Independent) (hf : ∀ a, (f a).Independent) : (x >>= f).Independent := by
  -- what the first gives decides whether the second runs, and does not depend on the ledger
  cases hresult : x.alone.1 with
  | error stop =>
    refine of_into (.error stop) x.alone.2 fun ledger => into_bind_of_error ?_
    rw [hx, hresult]
  | ok a =>
    refine of_into (f a).alone.1 (x.alone.2 ++ (f a).alone.2) fun ledger => ?_
    have hstep : x.into ledger = (.ok a, ledger ++ x.alone.2) := by
      rw [hx, hresult]
    rw [into_bind_of_ok hstep, hf a, Ledger.append_assoc]

/-- A loop whose steps are independent is independent. -/
theorem forM {f : α → LedgerM Unit} {xs : List α} (h : ∀ x ∈ xs, (f x).Independent) :
    (xs.forM f).Independent := by
  induction xs with
  | nil => exact pure ()
  | cons x rest ih =>
    obtain ⟨hx, hrest⟩ := List.forall_mem_cons.1 h
    exact hx.bind fun _ => ih hrest

/-- Two extractions in a row that give a value: each gives one alone, and what they write is what
each writes alone. -/
theorem alone_bind_of_ok {b : β} (hf : ∀ a, (f a).Independent)
    (hok : (x >>= f).alone.1 = .ok b) :
    ∃ a, x.alone.1 = .ok a ∧ (f a).alone.1 = .ok b ∧
      (x >>= f).alone.2 = x.alone.2 ++ (f a).alone.2 := by
  cases hresult : x.alone.1 with
  | error stop =>
    have hstop : (x >>= f).alone = (.error stop, x.alone.2) :=
      into_bind_of_error (Prod.ext hresult rfl)
    rw [hstop] at hok
    cases hok
  | ok a =>
    have hnext : (x >>= f).alone = (f a).into x.alone.2 := into_bind_of_ok (Prod.ext hresult rfl)
    rw [hf a] at hnext
    rw [hnext] at hok ⊢
    exact ⟨a, rfl, hok, rfl⟩

/-- A loop that runs through: each of its steps gives a value alone, and the records are, step by
step, those that it has alone. -/
theorem alone_forM_of_ok {f : α → LedgerM Unit} {xs : List α} (h : ∀ x ∈ xs, (f x).Independent)
    (hok : (xs.forM f).alone.1 = .ok ()) :
    (∀ x ∈ xs, (f x).alone.1 = .ok ()) ∧
      (xs.forM f).alone.2.records = xs.flatMap fun x => (f x).alone.2.records := by
  induction xs with
  | nil => exact ⟨List.forall_mem_nil _, rfl⟩
  | cons x rest ih =>
    have hlater := (List.forall_mem_cons.1 h).2
    rw [forM_cons] at hok ⊢
    obtain ⟨_, hx, hrest, happended⟩ := alone_bind_of_ok (fun _ => forM hlater) hok
    obtain ⟨hall, hrecords⟩ := ih hlater hrest
    refine ⟨List.forall_mem_cons.2 ⟨hx, hall⟩, ?_⟩
    rw [happended, Ledger.records_append, hrecords, List.flatMap_cons]

end Independent

/-! ### Writing steps -/

/-- Enters a record or a diagnostic into the ledger. -/
def enter (entry : Entry) : LedgerM Unit := modify fun ledger => ledger.enter entry

/-- Entering appends the entry, whatever the ledger holds. -/
theorem independent_enter (entry : Entry) : (enter entry).Independent :=
  .of_into (.ok ()) (.ofJournal [entry]) fun ledger =>
    congrArg (Prod.mk _) (Ledger.enter_eq ledger entry)

/-- Stopping leaves any ledger as it is. -/
theorem independent_throw (reason : Stop) : (throw reason : LedgerM α).Independent :=
  .of_into (.error reason) ∅ fun ledger => congrArg (Prod.mk _) (Ledger.append_empty ledger).symm

/-! ### Scans -/

variable {σ τ : Type}

/-- Performs a scan from a state on and enters what it writes into the ledger; the state that the
scan reaches comes with its value. -/
def performFrom (x : Scan σ α) (s : σ) : LedgerM (α × σ) :=
  .mk fun ledger =>
    ((x.run s).result.map fun a => (a, (x.run s).state),
      (x.run s).journal.foldl Ledger.enter ledger)

/-- Performing a scan appends to the ledger what its journal fills. -/
theorem into_performFrom (x : Scan σ α) (s : σ) (ledger : Ledger) :
    (performFrom x s).into ledger =
      ((x.run s).result.map fun a => (a, (x.run s).state),
        ledger ++ .ofJournal (x.run s).journal) :=
  congrArg (Prod.mk _) (Ledger.foldl_enter _ ledger)

/-- A scan that writes enters its entry. -/
theorem performFrom_write (entry : Entry) (s : σ) :
    performFrom (Scan.write entry) s = enter entry >>= fun _ => pure ((), s) := rfl

/-- A scan that stops stops the extraction. -/
theorem performFrom_stop (reason : Stop) (s : σ) :
    performFrom (Scan.stop reason : Scan σ α) s = throw reason := rfl

/-- A scan that gives a value enters nothing. -/
theorem performFrom_pure (a : α) (s : σ) : performFrom (Pure.pure a) s = pure (a, s) := rfl

/-- A scan that reads its state enters nothing. -/
theorem performFrom_get (s : σ) : performFrom Scan.get s = pure (s, s) := rfl

/-- A scan that changes its state enters nothing. -/
theorem performFrom_modify (f : σ → σ) (s : σ) :
    performFrom (Scan.modify f) s = pure ((), f s) := rfl

/-- Two scans in a row hand the ledger on from the first to the second. -/
theorem performFrom_bind (x : Scan σ α) (f : α → Scan σ β) (s : σ) :
    performFrom (x >>= f) s = performFrom x s >>= fun (a, t) => performFrom (f a) t := by
  ext1 ledger
  rw [into_performFrom]
  have hx := into_performFrom x s ledger
  cases hresult : (x.run s).result with
  | error stop =>
    rw [hresult] at hx
    rw [into_bind_of_error hx, Scan.run_bind, Outcome.andThen, hresult]
    rfl
  | ok a =>
    rw [hresult] at hx
    rw [into_bind_of_ok hx, into_performFrom, Scan.run_bind_of_ok hresult, Ledger.ofJournal_append,
      Ledger.append_assoc]

/-- A scan with a state of its own enters what it writes into the same ledger. -/
theorem performFrom_fresh (initial : τ) (x : Scan τ α) (s : σ) :
    performFrom (Scan.fresh initial x : Scan σ α) s =
      performFrom x initial >>= fun (a, _) => pure (a, s) := by
  ext1 ledger
  rw [into_performFrom]
  have hx := into_performFrom x initial ledger
  cases hresult : (x.run initial).result with
  | error stop =>
    rw [hresult] at hx
    rw [into_bind_of_error hx, Scan.run_fresh, hresult]
    rfl
  | ok a =>
    rw [hresult] at hx
    rw [into_bind_of_ok hx, Scan.run_fresh, hresult]
    rfl

/-- Performs a scan without a state, and enters what it writes into the ledger. -/
def perform (x : FileScan α) : LedgerM α :=
  .mk fun ledger => ((x.run ()).result, (x.run ()).journal.foldl Ledger.enter ledger)

/-- Performing a scan without a state appends to the ledger what its journal fills. -/
theorem into_perform (x : FileScan α) (ledger : Ledger) :
    (perform x).into ledger = ((x.run ()).result, ledger ++ .ofJournal (x.run ()).journal) :=
  congrArg (Prod.mk _) (Ledger.foldl_enter _ ledger)

/-- A scan performed alone fills a ledger of its own. -/
theorem alone_perform (x : FileScan α) :
    (perform x).alone = ((x.run ()).result, .ofJournal (x.run ()).journal) := by
  rw [alone, into_perform, Ledger.empty_append]

/-- A scan without a state is performed from the only state there is. -/
theorem perform_eq (x : FileScan α) : perform x = performFrom x () >>= fun (a, _) => pure a := by
  ext1 ledger
  rw [into_perform]
  have hx := into_performFrom x () ledger
  cases hresult : (x.run ()).result with
  | error stop =>
    rw [hresult] at hx
    rw [into_bind_of_error hx]
  | ok a =>
    rw [hresult] at hx
    rw [into_bind_of_ok hx]
    rfl

/-- Two scans without a state in a row are performed in a row. -/
theorem perform_bind (x : FileScan α) (f : α → FileScan β) :
    perform (x >>= f) = perform x >>= fun a => perform (f a) := by
  simp only [perform_eq, performFrom_bind, bind_assoc, pure_bind]

/-- A loop of scans performs them in turn. -/
theorem perform_forM (f : α → FileScan Unit) (xs : List α) :
    perform (xs.forM f) = xs.forM fun x => perform (f x) := by
  induction xs with
  | nil => rfl
  | cons x rest ih => rw [Scan.forM_cons, perform_bind, ih, forM_cons]

/-- What a scan does does not depend on the ledger that its entries go to. -/
def IgnoresLedger (x : Scan σ α) : Prop := ∀ s, (performFrom x s).Independent

namespace IgnoresLedger

/-- Writing an entry does not depend on the ledger. -/
theorem write (entry : Entry) : IgnoresLedger (Scan.write entry : Scan σ Unit) := fun s => by
  rw [performFrom_write]
  exact (independent_enter entry).bind fun _ => .pure _

/-- Stopping does not depend on the ledger. -/
theorem stop (reason : Stop) : IgnoresLedger (Scan.stop reason : Scan σ α) := fun s => by
  rw [performFrom_stop]
  exact independent_throw reason

/-- Giving a value does not depend on the ledger. -/
theorem pure (a : α) : IgnoresLedger (Pure.pure a : Scan σ α) := fun s => by
  rw [performFrom_pure]
  exact .pure _

/-- Reading the state does not depend on the ledger. -/
theorem get : IgnoresLedger (Scan.get : Scan σ σ) := fun s => by
  rw [performFrom_get]
  exact .pure _

/-- Changing the state does not depend on the ledger. -/
theorem modify (f : σ → σ) : IgnoresLedger (Scan.modify f) := fun s => by
  rw [performFrom_modify]
  exact .pure _

/-- Two scans in a row ignore the ledger if both do. -/
theorem bind {x : Scan σ α} {f : α → Scan σ β} (hx : IgnoresLedger x)
    (hf : ∀ a, IgnoresLedger (f a)) : IgnoresLedger (x >>= f) := fun s => by
  rw [performFrom_bind]
  exact (hx s).bind fun (a, t) => hf a t

/-- A loop ignores the ledger if its steps do. -/
theorem forM {f : α → Scan σ Unit} (h : ∀ x, IgnoresLedger (f x)) (xs : List α) :
    IgnoresLedger (xs.forM f) := by
  induction xs with
  | nil => exact pure ()
  | cons x rest ih => exact (h x).bind fun _ => ih

/-- A scan with a fresh state ignores the ledger if it does so with that state. -/
theorem fresh {x : Scan τ α} (hx : IgnoresLedger x) (initial : τ) :
    IgnoresLedger (Scan.fresh initial x : Scan σ α) := fun s => by
  rw [performFrom_fresh]
  exact (hx initial).bind fun _ => .pure _

/-- Failing does not depend on the ledger. -/
theorem fail (failure : FileFailure) (message : String) :
    IgnoresLedger (Scan.fail failure message : Scan σ α) :=
  (write _).bind fun _ => stop _

/-- A scan without a state that ignores the ledger is an independent extraction. -/
theorem independent_perform {x : FileScan α} (hx : IgnoresLedger x) : (perform x).Independent := by
  rw [perform_eq]
  exact (hx ()).bind fun _ => .pure _

end IgnoresLedger

end LedgerM

end SymbolRanges

import SymbolRanges.Extraction.Error
import SymbolRanges.Extraction.Journal

/-!
# Scans

A scan goes through code with a state of its own, writes a journal, and may stop early. The
journal and the state of a scan that stopped are those it had reached. `run_bind` says how two
scans follow each other, and the scans form a lawful monad.
-/

set_option autoImplicit false

namespace SymbolRanges

/-- Why a scan stopped early. -/
inductive Stop where
  /-- The file failed. -/
  | failed (failure : FileFailure)
  /-- A declaration found the counter of indices used up. -/
  | indexOverflow
  deriving DecidableEq

/-- What a scan leaves behind. -/
structure Outcome (σ α : Type) where
  journal : Journal
  state : σ
  result : Except Stop α

/-- A step that reads and changes a state, writes a journal and may stop. -/
structure Scan (σ α : Type) where
  run : σ → Outcome σ α

/-- Continues an outcome with the next scan, unless it stopped. -/
def Outcome.andThen {σ α β : Type} (o : Outcome σ α) (f : α → Scan σ β) : Outcome σ β :=
  match o.result with
  | .ok a =>
    let next := (f a).run o.state
    ⟨o.journal ++ next.journal, next.state, next.result⟩
  | .error stop => ⟨o.journal, o.state, .error stop⟩

namespace Scan

variable {σ τ α β γ : Type}

/-- Scans are the same if they do the same from every state. -/
@[ext] theorem ext {x y : Scan σ α} (h : ∀ s, x.run s = y.run s) : x = y := by
  cases x
  cases y
  congr
  exact funext h

/-- Does nothing and gives a value. -/
protected def pure (a : α) : Scan σ α := ⟨fun s => ⟨[], s, .ok a⟩⟩

/-- Does one scan and then, unless it stopped, the next. -/
protected def bind (x : Scan σ α) (f : α → Scan σ β) : Scan σ β := ⟨fun s => (x.run s).andThen f⟩

instance : Monad (Scan σ) where
  pure := Scan.pure
  bind := Scan.bind

/-- Giving a value writes nothing and keeps the state. -/
@[simp] theorem run_pure (a : α) (s : σ) : (pure a : Scan σ α).run s = ⟨[], s, .ok a⟩ := rfl

/-- Two scans in a row continue the outcome of the first with the second. -/
@[simp] theorem run_bind (x : Scan σ α) (f : α → Scan σ β) (s : σ) :
    (x >>= f).run s = (x.run s).andThen f := rfl

instance : LawfulMonad (Scan σ) := LawfulMonad.mk' _
  (by
    intro α x
    ext1 s
    show (x.run s).andThen _ = _
    unfold Outcome.andThen
    rcases x.run s with ⟨journal, state, _ | _⟩ <;> simp [Scan.pure])
  (by
    intro α β a f
    ext1 s
    simp [Outcome.andThen])
  (by
    intro α β γ x f g
    ext1 s
    simp only [run_bind, Outcome.andThen]
    rcases x.run s with ⟨journal, state, stop | a⟩
    · rfl
    · simp only
      rcases (f a).run state with ⟨journal', state', stop | b⟩
      · rfl
      · simp)

/-- Writes an entry into the journal. -/
def write (entry : Entry) : Scan σ Unit := ⟨fun s => ⟨[entry], s, .ok ()⟩⟩

/-- Stops. -/
def stop (reason : Stop) : Scan σ α := ⟨fun s => ⟨[], s, .error reason⟩⟩

/-- Fails the file, with a diagnostic in words of its own. -/
def fail (failure : FileFailure) (message : String) : Scan σ α := do
  write (.diagnostic (failure.diagnostic message))
  stop (.failed failure)

/-- Reads the state. -/
def get : Scan σ σ := ⟨fun s => ⟨[], s, .ok s⟩⟩

/-- Changes the state. -/
def modify (f : σ → σ) : Scan σ Unit := ⟨fun s => ⟨[], f s, .ok ()⟩⟩

/-- Does a scan with a fresh state of another kind, and keeps its own state as it was. -/
def fresh (initial : τ) (x : Scan τ α) : Scan σ α :=
  ⟨fun s =>
    let o := x.run initial
    ⟨o.journal, s, o.result⟩⟩

/-- Writing an entry puts it into the journal and keeps the state. -/
@[simp] theorem run_write (entry : Entry) (s : σ) :
    (write entry : Scan σ Unit).run s = ⟨[entry], s, .ok ()⟩ := rfl

/-- Stopping writes nothing and keeps the state. -/
@[simp] theorem run_stop (reason : Stop) (s : σ) :
    (stop reason : Scan σ α).run s = ⟨[], s, .error reason⟩ := rfl

/-- Failing writes the diagnostic of the failure and stops with it. -/
@[simp] theorem run_fail (failure : FileFailure) (message : String) (s : σ) :
    (fail failure message : Scan σ α).run s =
      ⟨[.diagnostic (failure.diagnostic message)], s, .error (.failed failure)⟩ := rfl

/-- Reading gives the state and keeps it. -/
@[simp] theorem run_get (s : σ) : (get : Scan σ σ).run s = ⟨[], s, .ok s⟩ := rfl

/-- Changing the state writes nothing. -/
@[simp] theorem run_modify (f : σ → σ) (s : σ) : (modify f).run s = ⟨[], f s, .ok ()⟩ := rfl

/-- A scan with a state of its own leaves its journal and its result, and the outer state as it was.
-/
@[simp] theorem run_fresh (initial : τ) (x : Scan τ α) (s : σ) :
    (fresh initial x : Scan σ α).run s =
      ⟨(x.run initial).journal, s, (x.run initial).result⟩ := rfl

end Scan

end SymbolRanges

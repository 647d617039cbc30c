import SymbolRanges.Extraction.Scan

/-!
# What a scan decides

A scan that stops at the first thing it cannot resolve decides a proposition: it gives a value only
when the proposition holds, and fails only when it does not. It also reports how it ended: a
failure by one error, which is its last diagnostic, and every other end by no error at all.

`Scan.Decides` says both. It is proved once for each way of building a scan, so that what a whole
extraction decides is read off its parts: one scan after the other decides the conjunction
(`Decides.bind`), and a loop decides that every element passes (`Decides.forM`).
-/

set_option autoImplicit false

namespace SymbolRanges

namespace Journal

/-- A journal that reports no error. -/
def OnlyWarns (journal : Journal) : Prop :=
  ∀ d ∈ diagnostics journal, d.severity = .warning

/-- A journal that reports a failure by its last diagnostic, and no error before it. -/
def EndsWith (failure : FileFailure) (journal : Journal) : Prop :=
  ∃ warnings message, diagnostics journal = warnings ++ [failure.diagnostic message] ∧
    ∀ d ∈ warnings, d.severity = .warning

/-- Two journals that hold warnings only hold warnings only together. -/
theorem OnlyWarns.append {xs ys : Journal} (hx : OnlyWarns xs) (hy : OnlyWarns ys) :
    OnlyWarns (xs ++ ys) := by
  intro d hd
  rw [diagnostics_append, List.mem_append] at hd
  rcases hd with hd | hd
  · exact hx d hd
  · exact hy d hd

/-- Warnings before the report of a failure do not change that it is the last diagnostic. -/
theorem EndsWith.append_left {failure : FileFailure} {xs ys : Journal} (hx : OnlyWarns xs)
    (hy : EndsWith failure ys) : EndsWith failure (xs ++ ys) := by
  obtain ⟨warnings, message, hdiag, hwarn⟩ := hy
  refine ⟨diagnostics xs ++ warnings, message, ?_, ?_⟩
  · rw [diagnostics_append, hdiag, List.append_assoc]
  · intro d hd
    rw [List.mem_append] at hd
    rcases hd with hd | hd
    · exact hx d hd
    · exact hwarn d hd

end Journal

/-- An outcome that agrees with a proposition: there is a value only if it holds, and a failure,
of an allowed kind, only if it does not. A failure is reported last, and no other end is reported
by an error. -/
def Outcome.Agrees {σ α : Type} (allowed : FileFailure → Prop) (P : Prop) (o : Outcome σ α) :
    Prop :=
  match o.result with
  | .ok _ => P ∧ Journal.OnlyWarns o.journal
  | .error (.failed failure) => ¬ P ∧ allowed failure ∧ Journal.EndsWith failure o.journal
  | .error .indexOverflow => Journal.OnlyWarns o.journal

namespace Scan

variable {σ τ α β : Type} {allowed : FileFailure → Prop} {P Q : Prop}

/-- A scan whose outcome agrees with a proposition from every state on. -/
def Decides (allowed : FileFailure → Prop) (P : Prop) (x : Scan σ α) : Prop :=
  ∀ s, (x.run s).Agrees allowed P

namespace Decides

/-- Only the truth of what is decided matters. -/
theorem congr {x : Scan σ α} (hx : x.Decides allowed P) (h : P ↔ Q) : x.Decides allowed Q := by
  rw [← propext h]
  exact hx

/-- Decided with fewer kinds of failures is decided with more. -/
theorem mono {allowed' : FileFailure → Prop} {x : Scan σ α} (hx : x.Decides allowed P)
    (h : ∀ failure, allowed failure → allowed' failure) : x.Decides allowed' P := by
  intro s
  have hs := hx s
  unfold Outcome.Agrees at hs ⊢
  split at hs
  · exact hs
  · exact ⟨hs.1, h _ hs.2.1, hs.2.2⟩
  · exact hs

/-- Giving a value is decided. -/
theorem pure (a : α) : (Pure.pure a : Scan σ α).Decides allowed True := by
  intro s
  refine ⟨trivial, ?_⟩
  intro d hd
  cases hd

/-- Reading the state is decided. -/
theorem get : (Scan.get : Scan σ σ).Decides allowed True := by
  intro s
  refine ⟨trivial, ?_⟩
  intro d hd
  cases hd

/-- Changing the state is decided. -/
theorem modify (f : σ → σ) : (Scan.modify f).Decides allowed True := by
  intro s
  refine ⟨trivial, ?_⟩
  intro d hd
  cases hd

/-- Writing down a record, a note or a warning fails nothing. -/
theorem write {entry : Entry} (h : Journal.OnlyWarns [entry]) :
    (Scan.write entry : Scan σ Unit).Decides allowed True := by
  intro s
  exact ⟨trivial, h⟩

/-- A failure says that what was to be decided does not hold. -/
theorem fail {failure : FileFailure} (h : allowed failure) (message : String) :
    (Scan.fail failure message : Scan σ α).Decides allowed False := by
  intro s
  refine ⟨not_false, h, [], message, rfl, ?_⟩
  intro d hd
  cases hd

/-- A counter that is used up decides nothing. -/
theorem overflow : (Scan.stop .indexOverflow : Scan σ α).Decides allowed P := by
  intro s d hd
  cases hd

/-- One scan after the other decides that both pass. -/
theorem bind {x : Scan σ α} {f : α → Scan σ β} (hx : x.Decides allowed P)
    (hf : ∀ a, (f a).Decides allowed Q) : (x >>= f).Decides allowed (P ∧ Q) := by
  intro s
  have hs := hx s
  rw [run_bind]
  unfold Outcome.andThen
  generalize x.run s = o at hs ⊢
  obtain ⟨journal, state, stop | a⟩ := o
  · cases stop with
    | failed failure =>
      obtain ⟨hP, hallowed, hlast⟩ := hs
      exact ⟨fun h => hP h.1, hallowed, hlast⟩
    | indexOverflow => exact hs
  · obtain ⟨hP, hwarn⟩ := hs
    have hn := hf a state
    simp only
    -- what the first scan wrote is only warnings, so the second alone decides how it ends
    generalize (f a).run state = next at hn ⊢
    obtain ⟨journal', state', stop | b⟩ := next
    · cases stop with
      | failed failure =>
        obtain ⟨hQ, hallowed, hlast⟩ := hn
        exact ⟨fun h => hQ h.2, hallowed, hlast.append_left hwarn⟩
      | indexOverflow => exact hwarn.append hn
    · exact ⟨⟨hP, hn.1⟩, hwarn.append hn.2⟩

/-- A loop decides that every element passes. -/
theorem forM {f : α → Scan σ Unit} {R : α → Prop} (xs : List α)
    (h : ∀ x ∈ xs, (f x).Decides allowed (R x)) :
    (xs.forM f).Decides allowed (∀ x ∈ xs, R x) := by
  induction xs with
  | nil => exact (pure ()).congr (by simp)
  | cons x rest ih =>
    have hx := h x List.mem_cons_self
    have hrest := ih fun y hy => h y (List.mem_cons_of_mem x hy)
    show (f x >>= fun _ => rest.forM f).Decides allowed _
    exact (hx.bind fun _ => hrest).congr (by simp)

/-- A walk with a state of its own decides what it decides from its first state on. -/
theorem fresh {x : Scan τ α} (hx : x.Decides allowed P) (initial : τ) :
    (Scan.fresh initial x : Scan σ α).Decides allowed P := by
  intro s
  exact hx initial

/-- A scan that decides a proposition gives a value when it holds, unless a counter is used up. -/
theorem result_eq_ok {x : Scan σ Unit}
    (hx : x.Decides allowed P) (hP : P) {s : σ}
    (hcount : (x.run s).result ≠ .error .indexOverflow) : (x.run s).result = .ok () := by
  have hs := hx s
  unfold Outcome.Agrees at hs
  split at hs
  · next h => exact h
  · exact absurd hP hs.1
  · next h => exact absurd h hcount

end Decides

end Scan

end SymbolRanges

import Mathlib.Control.Monad.Basic
import Mathlib.Data.List.TakeWhile
import SymbolRanges.Extraction.Run
import SymbolRanges.Proofs.Extraction.Failure
import SymbolRanges.Proofs.IndexTable

/-!
# What a run hands to its sink, and what it reports

A run extracts unit after unit and interleaves three things: files that fail are passed over, the
records of the others go to the sink, and a refusal of the sink ends everything in the middle of a
file. Seen from the sink it is simpler than that. All records of the run form one list, and the run
hands this list to the sink as if it had been there from the beginning: `Extractor.runFrom_eq`.

What a sink does with a list of records is said without the loop that hands them over, by
`Sink.Accepts` and `Sink.RefusesAt`. `Sink.logging` makes the calls of a sink visible.
-/

set_option autoImplicit false

namespace SymbolRanges

/-! ### Handing over a list of records -/

namespace Sink

variable {σ : Type} (sink : Sink σ)

/-- The sink takes all of the records, and its state goes from the first to the last. -/
inductive Accepts : σ → List Record → σ → Prop
  | nil (s : σ) : Accepts s [] s
  | cons {s t u : σ} {r : Record} {rest : List Record} (hr : sink s r = (t, none))
    (hrest : Accepts t rest u) : Accepts s (r :: rest) u

/-- The sink takes the first `n` records and refuses the next one, which leaves it in a state. -/
def RefusesAt (s : σ) (records : List Record) (n : Nat) (error : SinkError) (t : σ) : Prop :=
  ∃ r u, records[n]? = some r ∧ sink.Accepts s (records.take n) u ∧ sink u r = (t, some error)

/-- The sink that also keeps every record that it is called with, taken or not. -/
def logging : Sink (σ × List Record) := fun (s, calls) r =>
  (((sink s r).1, calls ++ [r]), (sink s r).2)

variable {sink} {s t : σ} {records : List Record}

/-- Records are forwarded one after the other up to the first refusal. -/
theorem forward_append (xs ys : List Record) :
    sink.forward s (xs ++ ys) =
      match (sink.forward s xs).2 with
      | none => sink.forward (sink.forward s xs).1 ys
      | some error => ((sink.forward s xs).1, some error) := by
  induction xs generalizing s with
  | nil => rfl
  | cons r rest ih =>
    simp only [List.cons_append, forward]
    rcases sink s r with ⟨u, _ | error⟩
    · exact ih
    · rfl

/-- A sink that accepts records takes them all. -/
theorem Accepts.forward_eq (h : sink.Accepts s records t) : sink.forward s records = (t, none) := by
  induction h with
  | nil s => rfl
  | cons hr _ ih => simp only [forward, hr, ih]

/-- A sink that takes all records accepts them. -/
theorem accepts_of_forward_eq (h : sink.forward s records = (t, none)) :
    sink.Accepts s records t := by
  induction records generalizing s with
  | nil =>
    cases h
    exact .nil _
  | cons r rest ih =>
    rw [forward] at h
    split at h
    · next u hr => exact .cons hr (ih h)
    · cases h

/-- A sink that refuses a record ends the forwarding there. -/
theorem RefusesAt.forward_eq {n : Nat} {error : SinkError}
    (h : sink.RefusesAt s records n error t) : sink.forward s records = (t, some error) := by
  obtain ⟨r, u, hr, haccepts, hrefuses⟩ := h
  obtain ⟨hlt, hget⟩ := List.getElem?_eq_some_iff.1 hr
  have hsplit : records = records.take n ++ r :: records.drop (n + 1) := by
    rw [← hget, ← List.drop_eq_getElem_cons hlt, List.take_append_drop]
  rw [hsplit, forward_append, haccepts.forward_eq]
  simp only [forward, hrefuses]

/-- A sink that accepts records is called with each of them, in order. -/
theorem Accepts.logging (h : sink.Accepts s records t) (calls : List Record) :
    sink.logging.Accepts (s, calls) records (t, calls ++ records) := by
  induction h generalizing calls with
  | nil s =>
    rw [List.append_nil]
    exact .nil (s, calls)
  | @cons s t u r rest hr _ ih =>
    have hcall : sink.logging (s, calls) r = ((t, calls ++ [r]), none) := by
      simp [Sink.logging, hr]
    have hrest := ih (calls ++ [r])
    rw [List.append_assoc, List.singleton_append] at hrest
    exact .cons hcall hrest

/-- A sink that refuses a record is called with the records up to this one, in order. -/
theorem RefusesAt.logging {n : Nat} {error : SinkError}
    (h : sink.RefusesAt s records n error t) :
    sink.logging.RefusesAt (s, []) records n error (t, records.take (n + 1)) := by
  obtain ⟨r, u, hr, haccepts, hrefuses⟩ := h
  refine ⟨r, (u, records.take n), hr, haccepts.logging [], ?_⟩
  simp [Sink.logging, hrefuses, List.take_add_one, hr]

end Sink

/-! ### A run as one list of records -/

/-- What the report says about a file whose extraction came to an end. -/
def ExtractedFile.summary? (extraction : ExtractedFile) : Option FileSummary :=
  match extraction.result with
  | .ok () => some ⟨.extracted extraction.records.length, extraction.diagnostics⟩
  | .error (.failed error) => some ⟨.failed error, extraction.diagnostics⟩
  | .error .indexOverflow => none

namespace Extractor

variable (e : Extractor)

/-- Whether the extraction of a unit comes to an end, because no counter is used up in it. -/
def completes (unit : InputFile) : Bool :=
  decide ((e.extractInput unit).result ≠ .error .indexOverflow)

/-- The records of the units whose extraction succeeds, in the order of the units. -/
def recordsOf (units : List InputFile) : List Record :=
  (units.filter fun unit => (e.extractInput unit).succeeded).flatMap fun unit =>
    (e.extractInput unit).records

/-- The units that a run comes to if the sink takes everything: all of them, or those before the
first in which a counter is used up. -/
def reached (units : List InputFile) : List InputFile := units.takeWhile e.completes

/-- The entries that units make in a report, one after the other. -/
def reportEntries (units : List InputFile) : List (String × FileSummary) :=
  units.filterMap fun unit => (e.extractInput unit).summary?.map fun o => (unit.path, o)

variable {e}

/-- A run in which all units come to an end reaches all of them. -/
theorem reached_eq_self {units : List InputFile} (h : ∀ unit ∈ units, e.completes unit = true) :
    e.reached units = units :=
  List.takeWhile_eq_self_iff.2 h

/-- A unit that comes to an end has the next entry of the report. -/
theorem insertAll_reportEntries_cons {unit : InputFile} {o : FileSummary}
    (h : (e.extractInput unit).summary? = some o) (report : Report) (rest : List InputFile) :
    report.insertAll (e.reportEntries (unit :: rest)) =
      (report.insert unit.path o).insertAll (e.reportEntries rest) := by
  simp [reportEntries, h, Table.insertAll]

/-- A unit that comes to an end has an outcome. -/
theorem isSome_summary? {unit : InputFile} (h : e.completes unit = true) :
    (e.extractInput unit).summary?.isSome = true := by
  unfold completes at h
  unfold ExtractedFile.summary?
  split <;> simp_all

/-- The paths of the entries are those of the units. -/
theorem map_fst_reportEntries {units : List InputFile}
    (h : ∀ unit ∈ units, e.completes unit = true) :
    (e.reportEntries units).map Prod.fst = units.map InputFile.path := by
  unfold reportEntries
  induction units with
  | nil => rfl
  | cons unit rest ih =>
    obtain ⟨o, ho⟩ := Option.isSome_iff_exists.1 (isSome_summary? (h unit List.mem_cons_self))
    simp [ho, ih fun other hother => h other (List.mem_cons_of_mem unit hother)]

/-- The last entry under a path is that of the last unit with the path. -/
theorem find?_reverse_reportEntries {units : List InputFile}
    (h : ∀ unit ∈ units, e.completes unit = true) (path : String) :
    ((e.reportEntries units).reverse.find? fun entry => decide (entry.1 = path)).map Prod.snd =
      (units.filter fun unit => decide (unit.path = path)).getLast?.bind fun unit =>
        (e.extractInput unit).summary? := by
  unfold reportEntries
  rw [List.getLast?_filter, ← List.filterMap_reverse]
  have hunits : ∀ unit ∈ units.reverse, e.completes unit = true :=
    fun unit hunit => h unit (List.mem_reverse.1 hunit)
  generalize units.reverse = reversed at hunits ⊢
  induction reversed with
  | nil => rfl
  | cons unit rest ih =>
    obtain ⟨o, ho⟩ := Option.isSome_iff_exists.1 (isSome_summary? (hunits unit List.mem_cons_self))
    have hrest := ih fun other hother => hunits other (List.mem_cons_of_mem unit hother)
    by_cases hpath : unit.path = path
    · simp [ho, hpath]
    · simpa [ho, hpath] using hrest

variable {σ : Type}

/-- A run hands the records of the units that it comes to over as one list. If the sink takes all
of it, the report has an entry for each unit. -/
theorem runFrom_eq (accept : Sink σ) (units : List InputFile) (s : σ) (report : Report) :
    (e.runFrom accept units s report).sink =
      (accept.forward s (e.recordsOf (e.reached units))).1 ∧
    (e.runFrom accept units s report).result =
      match (accept.forward s (e.recordsOf (e.reached units))).2 with
      | some error => .error (.sinkFailed error)
      | none =>
        if ∀ unit ∈ units, e.completes unit = true then
          .ok (report.insertAll (e.reportEntries units))
        else .error .indexOverflow := by
  induction units generalizing s report with
  | nil => exact ⟨rfl, rfl⟩
  | cons unit rest ih =>
    cases hresult : (e.extractInput unit).result with
    | error stop =>
      cases stop with
      | indexOverflow =>
        have hstop : e.completes unit = false := by simp [completes, hresult]
        simp [runFrom, hresult, reached, hstop, recordsOf]
      | failed error =>
        have hdone : e.completes unit = true := by simp [completes, hresult]
        have hrecords : e.recordsOf (e.reached (unit :: rest)) =
            e.recordsOf (e.reached rest) := by
          simp [reached, hdone, recordsOf, ExtractedFile.succeeded, hresult, Except.isOk,
            Except.toBool]
        have hsummary : (e.extractInput unit).summary? =
            some ⟨.failed error, (e.extractInput unit).diagnostics⟩ := by
          simp [ExtractedFile.summary?, hresult]
        rw [hrecords, insertAll_reportEntries_cons hsummary]
        simp only [runFrom, hresult, settle, List.forall_mem_cons, hdone, true_and]
        exact ih s _
    | ok u =>
      have hdone : e.completes unit = true := by simp [completes, hresult]
      have hrecords : e.recordsOf (e.reached (unit :: rest)) =
          (e.extractInput unit).records ++ e.recordsOf (e.reached rest) := by
        simp [reached, hdone, recordsOf, ExtractedFile.succeeded, hresult, Except.isOk,
          Except.toBool]
      have hsummary : (e.extractInput unit).summary? =
          some ⟨.extracted (e.extractInput unit).records.length,
            (e.extractInput unit).diagnostics⟩ := by
        simp [ExtractedFile.summary?, hresult]
      rw [hrecords, insertAll_reportEntries_cons hsummary, Sink.forward_append]
      simp only [runFrom, hresult, settle, List.forall_mem_cons, hdone, true_and]
      -- a refusal in this unit ends the run, else the rest goes on from the sink as it was left
      rcases accept.forward s (e.extractInput unit).records with ⟨t, _ | error⟩
      · exact ih t _
      · exact ⟨rfl, rfl⟩

end Extractor

/-- A run goes through its units until it comes to one in which a counter is used up; here `R` is
the list of the records of those units before it whose extraction succeeds. If the sink takes all of
`R`, it is called with `R` and nothing else, and when no counter is used up the run ends with a
report: its paths stand in the order of their first occurrences, and each has the outcome of the
last unit with this path. If the sink refuses the `n`-th record of `R` and none before, the run ends
with the error of the sink, which was called with the first `n` records of `R`, with the refused one
and with nothing else. -/
theorem run_forwards_records {σ : Type} (e : Extractor) (accept : Sink σ) (units : List InputFile)
    (s : σ) :
    let R := e.recordsOf (e.reached units)
    ((∀ unit ∈ units, (e.extractInput unit).result ≠ .error .indexOverflow) →
      R = e.recordsOf units) ∧
    (∀ t, accept.Accepts s R t →
      (e.run accept units s).sink = t ∧
      (e.run accept.logging units (s, [])).sink = (t, R) ∧
      ((∃ unit ∈ units, (e.extractInput unit).result = .error .indexOverflow) →
        (e.run accept units s).result = .error .indexOverflow) ∧
      ((∀ unit ∈ units, (e.extractInput unit).result ≠ .error .indexOverflow) →
        ∃ report, (e.run accept units s).result = .ok report ∧
          report.keys = (units.map InputFile.path).eraseDups ∧
          ∀ path, report.find? path =
            (units.filter fun unit => decide (unit.path = path)).getLast?.bind fun unit =>
              (e.extractInput unit).summary?)) ∧
    ∀ n error t, accept.RefusesAt s R n error t →
      (e.run accept units s).result = .error (.sinkFailed error) ∧
      (e.run accept units s).sink = t ∧
      (e.run accept.logging units (s, [])).sink = (t, R.take (n + 1)) := by
  intro R
  have hcompletes (unit : InputFile) :
      e.completes unit = true ↔ (e.extractInput unit).result ≠ .error .indexOverflow :=
    decide_eq_true_iff
  -- the run and its logged twin are both one forwarding of all records
  have hrun := e.runFrom_eq accept units s ∅
  have hlogged := (e.runFrom_eq accept.logging units (s, []) ∅).1
  refine ⟨?_, ?_, ?_⟩
  · intro hall
    have hreached :=
      Extractor.reached_eq_self fun unit hunit => (hcompletes unit).2 (hall unit hunit)
    show e.recordsOf (e.reached units) = _
    rw [hreached]
  · intro t haccepts
    rw [haccepts.forward_eq] at hrun
    rw [(haccepts.logging []).forward_eq] at hlogged
    refine ⟨hrun.1, hlogged, ?_, ?_⟩
    · rintro ⟨unit, hunit, hstop⟩
      refine hrun.2.trans (if_neg ?_)
      intro hall
      exact (hcompletes unit).1 (hall unit hunit) hstop
    · intro hall
      have hdone : ∀ unit ∈ units, e.completes unit = true :=
        fun unit hunit => (hcompletes unit).2 (hall unit hunit)
      refine ⟨_, hrun.2.trans (if_pos hdone), ?_, ?_⟩
      · rw [Table.keys_insertAll_empty, Extractor.map_fst_reportEntries hdone]
      · intro path
        have hnone : (∅ : Report).find? path = none := rfl
        rw [Table.find?_insertAll, Extractor.find?_reverse_reportEntries hdone, hnone,
          Option.or_none]
  · intro n error t hrefuses
    rw [hrefuses.forward_eq] at hrun
    rw [hrefuses.logging.forward_eq] at hlogged
    exact ⟨hrun.2, hrun.1, hlogged⟩

/-- Three files: the sample, one that is not a source file, and the sample again under its path. -/
def repeatedUnits : List InputFile :=
  [⟨"A.java", sampleTree⟩, ⟨"B.java", ⟨⟨1⟩, .codeBlock, []⟩⟩, ⟨"A.java", sampleTree⟩]

/-- With room for all records the repeated files end in a report on two paths. With room for four of
the six, the second pass over the sample is cut off at its second record. -/
theorem run_forwards_records_repeated :
    let e : Extractor := ⟨sampleBindings.resolver, {}⟩
    (∃ report, (e.run Sink.collect repeatedUnits []).result = .ok report ∧
      report.keys = ["A.java", "B.java"]) ∧
    (e.run (Sink.collectUpTo 4 "full") repeatedUnits []).result =
      .error (.sinkFailed (.other "full")) ∧
    (e.run (Sink.collectUpTo 4 "full") repeatedUnits []).sink =
      (e.recordsOf repeatedUnits).take 4 := by
  intro e
  have hall : ∀ unit ∈ repeatedUnits, (e.extractInput unit).result ≠ .error .indexOverflow := by
    decide +kernel
  have hR : e.recordsOf (e.reached repeatedUnits) = e.recordsOf repeatedUnits :=
    (run_forwards_records e Sink.collect repeatedUnits []).1 hall
  constructor
  · have haccepts : Sink.collect.Accepts [] (e.recordsOf (e.reached repeatedUnits))
        (e.recordsOf (e.reached repeatedUnits)) :=
      Sink.accepts_of_forward_eq (Sink.forward_collect [] _)
    obtain ⟨-, -, -, hreport⟩ :=
      (run_forwards_records e Sink.collect repeatedUnits []).2.1 _ haccepts
    obtain ⟨report, hresult, hkeys, -⟩ := hreport hall
    exact ⟨report, hresult, hkeys.trans (by decide +kernel)⟩
  · have hrefuses : (Sink.collectUpTo 4 "full").RefusesAt []
        (e.recordsOf (e.reached repeatedUnits)) 4 (.other "full")
        ((e.recordsOf repeatedUnits).take 4) := by
      rw [hR]
      refine ⟨⟨"A.java", 6, 7, .method "A" "m" "()V"⟩, (e.recordsOf repeatedUnits).take 4,
        by decide +kernel, Sink.accepts_of_forward_eq (by decide +kernel), by decide +kernel⟩
    obtain ⟨hresult, hsink, -⟩ := (run_forwards_records e (Sink.collectUpTo 4 "full")
      repeatedUnits []).2.2 4 _ _ hrefuses
    exact ⟨hresult, hsink⟩

end SymbolRanges

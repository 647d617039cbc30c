import Mathlib.Algebra.BigOperators.Group.List.Basic
import SymbolRanges.Proofs.Extraction.Coverage
import SymbolRanges.Proofs.Extraction.Runs

/-!
# What a report says about the records of a run

The records of a run go to the sink unit by unit, and the report has one outcome for each path. A
unit with a path that comes again later leaves its records in the sink, and its outcome is replaced
in the report. So the units of a run fall into two parts, `latest` and `superseded`: the report is
an account of the first part, and what the sink holds beyond it comes from the second.
-/

set_option autoImplicit false

namespace SymbolRanges

/-! ### Adding up a report -/

/-- Adding up over the entries with one key is looking the key up. -/
theorem Table.sum_map_entries_of_key {κ ν : Type} [DecidableEq κ] (table : Table κ ν)
    (key : κ) (f : ν → Nat) :
    (table.entries.map fun entry => if entry.1 = key then f entry.2 else 0).sum =
      (table.find? key).elim 0 f := by
  obtain ⟨entries, hnodup⟩ := table
  unfold Table.find?
  induction entries with
  | nil => rfl
  | cons entry rest ih =>
    rw [List.map_cons, List.nodup_cons] at hnodup
    rw [List.map_cons, List.sum_cons, List.find?_cons]
    by_cases h : entry.1 = key
    · have hrest : (rest.map fun other => if other.1 = key then f other.2 else 0).sum = 0 := by
        refine List.sum_eq_zero ?_
        intro n hn
        obtain ⟨other, hother, rfl⟩ := List.mem_map.1 hn
        have hne : other.1 ≠ key := by
          rintro rfl
          exact hnodup.1 (List.mem_map.2 ⟨other, hother, h.symm⟩)
        exact if_neg hne
      simp [h, hrest]
    · rw [if_neg h, Nat.zero_add, decide_eq_false h]
      exact ih hnodup.2

/-- A report adds up the numbers of records of its entries. -/
theorem Report.recordCount_eq (report : Report) :
    report.recordCount = (report.entries.map fun entry => entry.2.recordCount).sum := by
  rw [recordCount, Table.values, List.foldr_map, List.sum_eq_foldr, List.foldr_map]

/-- A report succeeds if all of its entries do. -/
theorem Report.succeeded_iff (report : Report) :
    report.succeeded = true ↔ ∀ entry ∈ report.entries, entry.2.succeeded = true := by
  simp [succeeded, Table.values]

/-! ### Units that are superseded -/

/-- The units that no later unit with the same path supersedes. -/
def latest : List InputFile → List InputFile
  | [] => []
  | unit :: rest =>
    if unit.path ∈ rest.map InputFile.path then latest rest else unit :: latest rest

/-- The units that are followed by another unit with the same path. -/
def superseded : List InputFile → List InputFile
  | [] => []
  | unit :: rest =>
    if unit.path ∈ rest.map InputFile.path then unit :: superseded rest else superseded rest

/-- Every unit is among the latest ones or superseded, with its multiplicity. -/
theorem perm_latest_append_superseded (units : List InputFile) :
    units.Perm (latest units ++ superseded units) := by
  induction units with
  | nil => exact .refl []
  | cons unit rest ih =>
    by_cases h : unit.path ∈ rest.map InputFile.path
    · rw [latest, superseded, if_pos h, if_pos h]
      exact (ih.cons unit).trans List.perm_middle.symm
    · rw [latest, superseded, if_neg h, if_neg h]
      exact ih.cons unit

/-- The latest units are some of the units. -/
theorem mem_of_mem_latest {units : List InputFile} {unit : InputFile} (h : unit ∈ latest units) :
    unit ∈ units :=
  (perm_latest_append_superseded units).mem_iff.2 (List.mem_append_left _ h)

/-- No two of the latest units have the same path. -/
theorem nodup_paths_latest (units : List InputFile) :
    ((latest units).map InputFile.path).Nodup := by
  induction units with
  | nil => exact List.nodup_nil
  | cons unit rest ih =>
    by_cases h : unit.path ∈ rest.map InputFile.path
    · rwa [latest, if_pos h]
    · rw [latest, if_neg h, List.map_cons, List.nodup_cons]
      refine ⟨?_, ih⟩
      intro hmem
      obtain ⟨other, hother, hpath⟩ := List.mem_map.1 hmem
      exact h (List.mem_map.2 ⟨other, mem_of_mem_latest hother, hpath⟩)

/-- The latest units are those that stand last among the units with their path. -/
theorem mem_latest_iff {units : List InputFile} {unit : InputFile} :
    unit ∈ latest units ↔
      (units.filter fun other => decide (other.path = unit.path)).getLast? = some unit := by
  induction units with
  | nil => simp [latest]
  | cons first rest ih =>
    have hrest (hpath : first.path = unit.path) : first.path ∈ rest.map InputFile.path ↔
        rest.filter (fun other => decide (other.path = unit.path)) ≠ [] := by
      simp [List.filter_eq_nil_iff, hpath]
    rw [List.filter_cons]
    by_cases hpath : first.path = unit.path
    · rw [if_pos (decide_eq_true hpath)]
      by_cases hlater : first.path ∈ rest.map InputFile.path
      · rw [latest, if_pos hlater, ih, List.getLast?_cons_of_ne_nil ((hrest hpath).1 hlater)]
      · have hnil := not_not.1 (mt (hrest hpath).2 hlater)
        rw [hnil] at ih ⊢
        rw [latest, if_neg hlater, List.mem_cons, ih]
        simp [eq_comm]
    · have hne : unit ≠ first := by
        rintro rfl
        exact hpath rfl
      rw [if_neg (by simpa using hpath), ← ih, latest]
      split <;> simp [hne]

/-- Where no path is repeated, no unit is superseded. -/
theorem latest_eq_self {units : List InputFile} (h : (units.map InputFile.path).Nodup) :
    latest units = units ∧ superseded units = [] := by
  induction units with
  | nil => exact ⟨rfl, rfl⟩
  | cons unit rest ih =>
    rw [List.map_cons, List.nodup_cons] at h
    rw [latest, superseded, if_neg h.1, if_neg h.1, (ih h.2).1]
    exact ⟨rfl, (ih h.2).2⟩

/-! ### Records of units -/

section Extract

variable {file : String} {tree : Tree} {resolver : Resolver} {options : Options}

/-- A file has records under its own path only. -/
theorem file_of_mem_records {r : Record} (hr : r ∈ (extract file tree resolver options).records) :
    r.file = file := by
  let context := FileContext.ofText file tree.root.text resolver options
  cases hresult : (extract file tree resolver options).result with
  | error stop =>
    rw [records_extract_of_error hresult] at hr
    cases hr
  | ok _ =>
    rw [(records_extract_of_ok hresult).2] at hr
    obtain ⟨x, identity, -, rfl⟩ := context.scanRoot_namedIn tree.root () r hr
    rfl

end Extract

namespace Extractor

variable {e : Extractor}

/-- A unit that fails has no records, so the records of units are those of all of them. -/
theorem recordsOf_eq (units : List InputFile) :
    e.recordsOf units = units.flatMap fun unit => (e.extractInput unit).records := by
  induction units with
  | nil => rfl
  | cons unit rest ih =>
    unfold recordsOf at ih ⊢
    rw [List.filter_cons, List.flatMap_cons, ← ih]
    split
    · rw [List.flatMap_cons]
    · next hfailed =>
      have hnone : (e.extractInput unit).records = [] := by
        cases hresult : (e.extractInput unit).result with
        | ok _ => exact absurd (by rw [ExtractedFile.succeeded, hresult]; rfl) hfailed
        | error stop => exact records_extract_of_error hresult
      rw [hnone, List.nil_append]

/-- What a report says about a unit is how many records it has and whether it succeeded. -/
theorem summary?_eq_some {unit : InputFile} {o : FileSummary}
    (h : (e.extractInput unit).summary? = some o) :
    o.recordCount = (e.extractInput unit).records.length ∧
      o.succeeded = (e.extractInput unit).succeeded := by
  unfold ExtractedFile.summary? at h
  unfold ExtractedFile.succeeded
  split at h
  · next hresult =>
    cases h
    rw [hresult]
    exact ⟨rfl, rfl⟩
  · next error hresult =>
    cases h
    have hnone : (e.extractInput unit).records = [] := records_extract_of_error hresult
    rw [hresult, hnone]
    exact ⟨rfl, rfl⟩
  · cases h

/-- All records of a unit are of its own path. -/
theorem countP_file_records (unit : InputFile) (path : String) :
    (e.extractInput unit).records.countP (fun r => decide (r.file = path)) =
      if unit.path = path then (e.extractInput unit).records.length else 0 := by
  split
  · next hpath =>
    rw [List.countP_eq_length]
    intro r hr
    exact decide_eq_true ((file_of_mem_records hr).trans hpath)
  · next hpath =>
    rw [List.countP_eq_zero]
    intro r hr heq
    exact hpath ((file_of_mem_records hr).symm.trans (of_decide_eq_true heq))

/-- The entries of a report are those of the units whose extraction comes to an end. -/
theorem mem_reportEntries_iff {units : List InputFile} {path : String} {o : FileSummary} :
    (path, o) ∈ e.reportEntries units ↔
      ∃ unit ∈ units, unit.path = path ∧ (e.extractInput unit).summary? = some o := by
  simp only [reportEntries, List.mem_filterMap, Option.map_eq_some_iff, Prod.mk.injEq]
  constructor
  · rintro ⟨unit, hunit, o', ho, hpath, rfl⟩
    exact ⟨unit, hunit, hpath, ho⟩
  · rintro ⟨unit, hunit, hpath, ho⟩
    exact ⟨unit, hunit, o, ho, hpath, rfl⟩

/-- Counting the records of units is adding up what their entries say. -/
theorem countP_recordsOf {P : Record → Bool} {f : String × FileSummary → Nat}
    {units : List InputFile} (hdone : ∀ unit ∈ units, e.completes unit = true)
    (h : ∀ unit o, (e.extractInput unit).summary? = some o →
      (e.extractInput unit).records.countP P = f (unit.path, o)) :
    (e.recordsOf units).countP P = ((e.reportEntries units).map f).sum := by
  rw [recordsOf_eq]
  induction units with
  | nil => rfl
  | cons unit rest ih =>
    obtain ⟨hunit, hrest⟩ := List.forall_mem_cons.1 hdone
    obtain ⟨o, ho⟩ := Option.isSome_iff_exists.1 (isSome_summary? hunit)
    have hentries : e.reportEntries (unit :: rest) = (unit.path, o) :: e.reportEntries rest := by
      simp [reportEntries, ho]
    rw [List.flatMap_cons, List.countP_append, ih hrest, h unit o ho, hentries, List.map_cons,
      List.sum_cons]

/-! ### Runs -/

/-- A run that collects all records ends with a report unless a counter is used up. -/
theorem run_collect_eq_ok_iff {units : List InputFile} {report : Report} :
    (e.run Sink.collect units []).result = .ok report ↔
      (∀ unit ∈ units, e.completes unit = true) ∧
        report = (∅ : Report).insertAll (e.reportEntries units) := by
  have hresult : (e.run Sink.collect units []).result =
      if ∀ unit ∈ units, e.completes unit = true then
        .ok ((∅ : Report).insertAll (e.reportEntries units))
      else .error .indexOverflow := by
    rw [run, (e.runFrom_eq Sink.collect units [] ∅).2, Sink.forward_collect]
  rw [hresult]
  constructor
  · intro h
    split at h
    · next hdone => exact ⟨hdone, (Except.ok.inj h).symm⟩
    · cases h
  · rintro ⟨hdone, rfl⟩
    exact if_pos hdone

section Collected

variable {units : List InputFile} {report : Report}

/-- A run that comes to its end has collected the records of all units, in order. -/
theorem sink_run_collect (h : ∀ unit ∈ units, e.completes unit = true) :
    (e.run Sink.collect units []).sink = e.recordsOf units := by
  have hsink := (e.runFrom_eq Sink.collect units [] ∅).1
  rw [Sink.forward_collect, reached_eq_self h, List.nil_append] at hsink
  exact hsink

/-- If all units come to an end, so do the latest ones. -/
theorem completes_of_mem_latest (h : ∀ unit ∈ units, e.completes unit = true) :
    ∀ unit ∈ latest units, e.completes unit = true :=
  fun unit hunit => h unit (mem_of_mem_latest hunit)

/-- The report of a run has the entries of the latest units. -/
theorem entries_perm_latest (hrun : (e.run Sink.collect units []).result = .ok report) :
    report.entries.Perm (e.reportEntries (latest units)) := by
  obtain ⟨hdone, rfl⟩ := run_collect_eq_ok_iff.1 hrun
  have hpaths : ((e.reportEntries (latest units)).map Prod.fst).Nodup := by
    rw [map_fst_reportEntries (completes_of_mem_latest hdone)]
    exact nodup_paths_latest units
  refine (List.perm_ext_iff_of_nodup (List.Nodup.of_map Prod.fst (Table.nodup_keys _))
    (List.Nodup.of_map Prod.fst hpaths)).2 ?_
  rintro ⟨path, o⟩
  have hnone : (∅ : Report).find? path = none := rfl
  rw [Table.mem_entries_iff, Table.find?_insertAll, find?_reverse_reportEntries hdone, hnone,
    Option.or_none, Option.bind_eq_some_iff]
  constructor
  · rintro ⟨unit, hlast, ho⟩
    have hpath : unit.path = path :=
      of_decide_eq_true (List.mem_filter.1 (List.mem_of_getLast? hlast)).2
    subst hpath
    exact mem_reportEntries_iff.2 ⟨unit, mem_latest_iff.2 hlast, rfl, ho⟩
  · intro h
    obtain ⟨unit, hunit, rfl, ho⟩ := mem_reportEntries_iff.1 h
    exact ⟨unit, mem_latest_iff.1 hunit, ho⟩

/-- Any count of the records in the sink is what the report adds up to, and the count of the records
of superseded units. -/
theorem countP_sink {P : Record → Bool} {f : String × FileSummary → Nat}
    (hrun : (e.run Sink.collect units []).result = .ok report)
    (h : ∀ unit o, (e.extractInput unit).summary? = some o →
      (e.extractInput unit).records.countP P = f (unit.path, o)) :
    (e.run Sink.collect units []).sink.countP P =
      (report.entries.map f).sum + (e.recordsOf (superseded units)).countP P := by
  have hdone := (run_collect_eq_ok_iff.1 hrun).1
  have hperm : (e.recordsOf units).Perm
      (e.recordsOf (latest units) ++ e.recordsOf (superseded units)) := by
    rw [recordsOf_eq, recordsOf_eq, recordsOf_eq, ← List.flatMap_append]
    exact (perm_latest_append_superseded units).flatMap_right _
  rw [sink_run_collect hdone, hperm.countP_eq, List.countP_append,
    countP_recordsOf (completes_of_mem_latest hdone) h,
    ((entries_perm_latest hrun).map f).sum_eq]

/-- The files of the report were all extracted exactly when the latest units were. -/
theorem succeeded_iff_latest (hrun : (e.run Sink.collect units []).result = .ok report) :
    report.succeeded = true ↔
      ∀ unit ∈ latest units, (e.extractInput unit).succeeded = true := by
  have hperm := entries_perm_latest hrun
  rw [report.succeeded_iff]
  constructor
  · intro h unit hunit
    obtain ⟨o, ho⟩ := Option.isSome_iff_exists.1
      (isSome_summary? ((run_collect_eq_ok_iff.1 hrun).1 unit (mem_of_mem_latest hunit)))
    have hentry : (unit.path, o) ∈ e.reportEntries (latest units) :=
      mem_reportEntries_iff.2 ⟨unit, hunit, rfl, ho⟩
    rw [← (summary?_eq_some ho).2]
    exact h _ (hperm.mem_iff.2 hentry)
  · rintro h ⟨path, o⟩ hentry
    obtain ⟨unit, hunit, -, ho⟩ := mem_reportEntries_iff.1 (hperm.mem_iff.1 hentry)
    rw [(summary?_eq_some ho).2]
    exact h unit hunit

end Collected

end Extractor

/-- The report of a run that collects all records accounts for the latest unit of each path. For
each path it says how many records with this path the sink holds, less those of superseded units,
and in total how many records the sink holds, less those of superseded units; and it says that all
files were extracted exactly when all latest units were. Where no path is repeated, nothing is
superseded and every unit is the latest. -/
theorem report_accounts_for_latest_units (e : Extractor) (units : List InputFile) (report : Report)
    (h : (e.run Sink.collect units []).result = .ok report) :
    let sink := (e.run Sink.collect units []).sink
    let replaced := e.recordsOf (superseded units)
    (∀ path, sink.countP (fun r => decide (r.file = path)) =
      (report.find? path).elim 0 FileSummary.recordCount +
        replaced.countP (fun r => decide (r.file = path))) ∧
    sink.length = report.recordCount + replaced.length ∧
    (report.succeeded = true ↔
      ∀ unit ∈ latest units, (e.extractInput unit).succeeded = true) ∧
    ((units.map InputFile.path).Nodup →
      (∀ path, sink.countP (fun r => decide (r.file = path)) =
        (report.find? path).elim 0 FileSummary.recordCount) ∧
      sink.length = report.recordCount ∧
      (report.succeeded = true ↔ ∀ unit ∈ units, (e.extractInput unit).succeeded = true)) := by
  intro sink replaced
  -- the entries of the report are those of the latest units, and the sink holds all records
  have hpath (path : String) : sink.countP (fun r => decide (r.file = path)) =
      (report.find? path).elim 0 FileSummary.recordCount +
        replaced.countP (fun r => decide (r.file = path)) := by
    rw [← report.sum_map_entries_of_key path FileSummary.recordCount]
    refine Extractor.countP_sink h ?_
    intro unit o ho
    rw [Extractor.countP_file_records, (Extractor.summary?_eq_some ho).1]
  have htotal : sink.length = report.recordCount + replaced.length := by
    rw [report.recordCount_eq, ← List.countP_true]
    refine Extractor.countP_sink h ?_
    intro unit o ho
    rw [List.countP_true, (Extractor.summary?_eq_some ho).1]
  have hsucceeded := Extractor.succeeded_iff_latest h
  refine ⟨hpath, htotal, hsucceeded, ?_⟩
  intro hnodup
  obtain ⟨hlatest, hsuperseded⟩ := latest_eq_self hnodup
  have hreplaced : replaced = [] := by
    show e.recordsOf (superseded units) = []
    rw [hsuperseded]
    rfl
  rw [hreplaced] at hpath htotal
  rw [hlatest] at hsucceeded
  exact ⟨hpath, htotal, hsucceeded⟩

/-- The repeated files: the report has three of the six records in the sink, as the second pass over
the sample supersedes the first, and a file that was not extracted. Without the second pass it has
all three records. -/
theorem report_accounts_for_latest_units_repeated :
    let e : Extractor := ⟨sampleBindings.resolver, {}⟩
    (∃ report, (e.run Sink.collect repeatedUnits []).result = .ok report ∧
      (e.run Sink.collect repeatedUnits []).sink.length = report.recordCount + 3 ∧
      report.succeeded = false) ∧
    ∃ report, (e.run Sink.collect (repeatedUnits.take 2) []).result = .ok report ∧
      (e.run Sink.collect (repeatedUnits.take 2) []).sink.length = report.recordCount ∧
      report.succeeded = false := by
  intro e
  have hdone : ∀ unit ∈ repeatedUnits, e.completes unit = true := by decide +kernel
  have hrun : (e.run Sink.collect repeatedUnits []).result =
      .ok ((∅ : Report).insertAll (e.reportEntries repeatedUnits)) :=
    Extractor.run_collect_eq_ok_iff.2 ⟨hdone, rfl⟩
  have hfirst : (e.run Sink.collect (repeatedUnits.take 2) []).result =
      .ok ((∅ : Report).insertAll (e.reportEntries (repeatedUnits.take 2))) :=
    Extractor.run_collect_eq_ok_iff.2
      ⟨fun unit hunit => hdone unit (List.mem_of_mem_take hunit), rfl⟩
  constructor
  · obtain ⟨-, htotal, -, -⟩ := report_accounts_for_latest_units e repeatedUnits _ hrun
    have hreplaced : (e.recordsOf (superseded repeatedUnits)).length = 3 := by decide +kernel
    rw [hreplaced] at htotal
    exact ⟨_, hrun, htotal, by decide +kernel⟩
  · obtain ⟨-, -, -, hnodup⟩ :=
      report_accounts_for_latest_units e (repeatedUnits.take 2) _ hfirst
    obtain ⟨-, htotal, -⟩ := hnodup (by decide +kernel)
    exact ⟨_, hfirst, htotal, by decide +kernel⟩

/-- Three versions of one file, of which the second is not a source file. -/
def revisedUnits : List InputFile :=
  [⟨"A.java", sampleTree⟩, ⟨"A.java", ⟨⟨1⟩, .codeBlock, []⟩⟩, ⟨"A.java", sampleTree⟩]

/-- The records of a superseded unit are in the sink and not in the report, and the failure of a
superseded unit is not in the report. After the first two versions the sink holds records of a file
that the report calls failed. -/
theorem report_forgets_superseded_units :
    let e : Extractor := ⟨sampleBindings.resolver, {}⟩
    (∃ report, (e.run Sink.collect revisedUnits []).result = .ok report ∧
      (e.run Sink.collect revisedUnits []).sink.countP (fun r => decide (r.file = "A.java")) ≠
        (report.find? "A.java").elim 0 FileSummary.recordCount ∧
      (e.run Sink.collect revisedUnits []).sink.length ≠ report.recordCount ∧
      ¬ (report.succeeded = true ↔
        ∀ unit ∈ revisedUnits, (e.extractInput unit).succeeded = true)) ∧
    ∃ report, (e.run Sink.collect (revisedUnits.take 2) []).result = .ok report ∧
      (report.find? "A.java").map FileSummary.succeeded = some false ∧
      ∃ r ∈ (e.run Sink.collect (revisedUnits.take 2) []).sink, r.file = "A.java" := by
  intro e
  have hdone : ∀ unit ∈ revisedUnits, e.completes unit = true := by decide +kernel
  have hfirst : ∀ unit ∈ revisedUnits.take 2, e.completes unit = true :=
    fun unit hunit => hdone unit (List.mem_of_mem_take hunit)
  refine ⟨⟨_, Extractor.run_collect_eq_ok_iff.2 ⟨hdone, rfl⟩, ?_, ?_, ?_⟩,
    _, Extractor.run_collect_eq_ok_iff.2 ⟨hfirst, rfl⟩, ?_, ?_⟩
  · decide +kernel
  · decide +kernel
  · decide +kernel
  · decide +kernel
  · decide +kernel

end SymbolRanges

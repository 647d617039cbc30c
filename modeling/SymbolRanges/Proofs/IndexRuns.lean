import Mathlib.Data.Finset.Dedup
import Mathlib.Data.Finset.Card
import SymbolRanges.Proofs.IndexTable

/-!
# Runs of a table of indices

An assignment reads a counter, moves it on and then notes the index, and it stops where the counter
is used up. `perform` says this in that order, and `perform_assign` that it is `assign?`. Along any
run of assignments and lookups the grants account for the table (`tallies_run`): each region hands
out consecutive indices, a refused assignment leaves the table as it was, and a lookup answers the
last grant of its declaration.
-/

set_option autoImplicit false

namespace SymbolRanges

namespace IndexTable

/-- An index that a declaration was given. -/
structure Grant where
  declaration : Span
  region : Region
  index : Nat
  deriving DecidableEq

/-- What a table is asked for. -/
inductive Request where
  | assign (declaration : Span) (region : Region)
  | lookup (declaration : Span)

/-- What a table replies. -/
inductive Reply where
  | granted (grant : Grant)
  | refused (declaration : Span) (region : Region)
  | found (declaration : Span) (index : Option Nat)
  deriving DecidableEq

/-- The grant of a reply, if it is one. -/
def Reply.grant? : Reply → Option Grant
  | .granted grant => some grant
  | _ => none

/-- The grants among replies. -/
def grants (replies : List Reply) : List Grant := replies.filterMap Reply.grant?

/-- The grants of a region among replies. -/
def grantsIn (region : Region) (replies : List Reply) : List Grant :=
  (grants replies).filter fun grant => decide (grant.region = region)

/-- The grants of a declaration among replies. -/
def grantsTo (declaration : Span) (replies : List Reply) : List Grant :=
  (grants replies).filter fun grant => decide (grant.declaration = declaration)

variable (t : IndexTable)

/-- Takes the next index of a region: the counter is read and moved on, unless it is used up. -/
def draw (region : Region) : Option Nat × IndexTable :=
  if t.next region < counterLimit then (some (t.next region), t.advance region) else (none, t)

/-- Notes the index of a declaration. -/
def note (declaration : Span) (index : Nat) : IndexTable :=
  { t with indices := t.indices.insert declaration index }

/-- The reply to a request, and the table that it leaves behind. -/
def perform : Request → Reply × IndexTable
  | .assign declaration region =>
    match t.draw region with
    | (some index, drawn) =>
      (.granted ⟨declaration, region, index⟩, drawn.note declaration index)
    | (none, drawn) => (.refused declaration region, drawn)
  | .lookup declaration => (.found declaration (t.find? declaration), t)

/-- The replies to requests made one after the other, and the table that they leave behind. -/
def run (t : IndexTable) : List Request → List Reply × IndexTable
  | [] => ([], t)
  | request :: rest =>
    ((t.perform request).1 :: ((t.perform request).2.run rest).1,
      ((t.perform request).2.run rest).2)

/-- An assignment does what `assign?` says, and nothing where that gives no index. -/
theorem perform_assign (declaration : Span) (region : Region) :
    t.perform (.assign declaration region) =
      match t.assign? declaration region with
      | some (index, after) => (.granted ⟨declaration, region, index⟩, after)
      | none => (.refused declaration region, t) := by
  by_cases h : t.next region < counterLimit
  · have hdraw : t.draw region = (some (t.next region), t.advance region) := if_pos h
    simp only [perform, hdraw, assign?, if_pos h]
    cases region <;> rfl
  · have hdraw : t.draw region = (none, t) := if_neg h
    simp only [perform, hdraw, assign?, if_neg h]

/-- An assignment below the limit is granted with the next index of its region. -/
theorem perform_assign_of_lt {t : IndexTable} {region : Region} (h : t.next region < counterLimit)
    (declaration : Span) :
    t.perform (.assign declaration region) =
      (.granted ⟨declaration, region, t.next region⟩, t.put declaration region) := by
  have hassign : t.assign? declaration region =
      some (t.next region, t.put declaration region) := if_pos h
  rw [perform_assign, hassign]

/-- An assignment at the limit is refused and changes nothing. -/
theorem perform_assign_of_not_lt {t : IndexTable} {region : Region}
    (h : ¬ t.next region < counterLimit) (declaration : Span) :
    t.perform (.assign declaration region) = (.refused declaration region, t) := by
  have hassign : t.assign? declaration region = none := if_neg h
  rw [perform_assign, hassign]

/-- A request at the end is performed on the table that the others lead to. -/
theorem run_concat (requests : List Request) (request : Request) :
    t.run (requests ++ [request]) =
      ((t.run requests).1 ++ [((t.run requests).2.perform request).1],
        ((t.run requests).2.perform request).2) := by
  induction requests generalizing t with
  | nil => rfl
  | cons first rest ih =>
    rw [List.cons_append, run, run, ih]
    rfl

/-- A reply at the end adds its grant to those before it. -/
theorem grants_concat (replies : List Reply) (reply : Reply) :
    grants (replies ++ [reply]) = grants replies ++ reply.grant?.toList := by
  rw [grants, List.filterMap_append]
  cases reply <;> rfl

/-- What replies say about a table that started with a base: each counter stands behind its grants,
which have consecutive indices, and the entries are those of the grants. -/
structure Tallies (base : Nat) (replies : List Reply) (t : IndexTable) : Prop where
  next_eq : ∀ region, t.next region = (empty base).next region + (grantsIn region replies).length
  next_le : ∀ region, t.next region ≤ counterLimit
  map_index_eq : ∀ region, (grantsIn region replies).map Grant.index =
    List.range' ((empty base).next region) (grantsIn region replies).length
  indices_eq : t.indices = (∅ : Table Span Nat).insertAll
    ((grants replies).map fun grant => (grant.declaration, grant.index))

variable {t} {base : Nat} {replies : List Reply}

/-- The tallies hold of a table to which nothing was requested. -/
theorem tallies_empty (hbase : base ≤ counterLimit) : Tallies base [] (empty base) where
  next_eq _ := rfl
  next_le region := by
    cases region with
    | normal => exact Nat.zero_le _
    | injected => exact hbase
  map_index_eq _ := rfl
  indices_eq := rfl

/-- A reply that grants nothing and leaves the table as it was is accounted for. -/
theorem Tallies.idle (h : Tallies base replies t) {reply : Reply} (hreply : reply.grant? = none) :
    Tallies base (replies ++ [reply]) t := by
  have hgrants : grants (replies ++ [reply]) = grants replies := by
    rw [grants_concat, hreply, Option.toList_none, List.append_nil]
  have hgrantsIn : ∀ region, grantsIn region (replies ++ [reply]) = grantsIn region replies :=
    fun region => by rw [grantsIn, hgrants, grantsIn]
  constructor
  · intro region
    rw [hgrantsIn]
    exact h.next_eq region
  · exact h.next_le
  · intro region
    rw [hgrantsIn]
    exact h.map_index_eq region
  · rw [hgrants]
    exact h.indices_eq

/-- A grant of the next index is accounted for by the table in which it is noted. -/
theorem Tallies.grant (h : Tallies base replies t) {region : Region}
    (hlt : t.next region < counterLimit) (declaration : Span) :
    Tallies base (replies ++ [.granted ⟨declaration, region, t.next region⟩])
      (t.put declaration region) := by
  have hgrants : grants (replies ++ [.granted ⟨declaration, region, t.next region⟩]) =
      grants replies ++ [⟨declaration, region, t.next region⟩] := grants_concat _ _
  -- in its own region the grant comes last, and the other region does not see it
  have hgrantsIn : ∀ other,
      grantsIn other (replies ++ [.granted ⟨declaration, region, t.next region⟩]) =
        grantsIn other replies ++
          if region = other then [⟨declaration, region, t.next region⟩] else [] := by
    intro other
    rw [grantsIn, hgrants, List.filter_append]
    by_cases hother : region = other <;> simp [hother, grantsIn]
  constructor
  · intro other
    rw [hgrantsIn, next_put, h.next_eq]
    split <;> simp [Nat.add_assoc]
  · intro other
    rw [next_put]
    split
    · next hother => exact hother ▸ hlt
    · exact h.next_le other
  · intro other
    rw [hgrantsIn]
    split
    · next hother =>
      subst hother
      rw [List.map_append, h.map_index_eq, List.length_append, List.length_singleton,
        List.range'_1_concat, ← h.next_eq]
      rfl
    · rw [List.append_nil]
      exact h.map_index_eq other
  · rw [hgrants, List.map_append, List.map_singleton, Table.insertAll_concat, ← h.indices_eq]
    cases region <;> rfl

/-- The reply to a request accounts for the table that the request leaves behind. -/
theorem Tallies.perform (h : Tallies base replies t) (request : Request) :
    Tallies base (replies ++ [(t.perform request).1]) (t.perform request).2 := by
  cases request with
  | assign declaration region =>
    by_cases hlt : t.next region < counterLimit
    · rw [perform_assign_of_lt hlt]
      exact h.grant hlt declaration
    · rw [perform_assign_of_not_lt hlt]
      exact h.idle rfl
  | lookup declaration => exact h.idle rfl

/-- The replies of any run account for the table that it leaves behind. -/
theorem tallies_run (hbase : base ≤ counterLimit) (requests : List Request) :
    Tallies base ((empty base).run requests).1 ((empty base).run requests).2 := by
  induction requests using List.reverseRecOn with
  | nil => exact tallies_empty hbase
  | append_singleton requests request ih =>
    rw [run_concat]
    exact ih.perform request

/-- A declaration is found with the index of its last grant. -/
theorem Tallies.find?_eq (h : Tallies base replies t) (declaration : Span) :
    t.find? declaration = (grantsTo declaration replies).getLast?.map Grant.index := by
  rw [find?, h.indices_eq, (Table.filledBy_insertAll _).find?_eq, List.filter_map,
    List.getLast?_map, Option.map_map]
  rfl

/-- A table has as many entries as declarations were granted an index. -/
theorem Tallies.size_eq (h : Tallies base replies t) :
    t.size = ((grants replies).map Grant.declaration).toFinset.card := by
  have hkeys : t.indices.keys = ((grants replies).map Grant.declaration).eraseDups := by
    rw [h.indices_eq, Table.keys_insertAll_empty, List.map_map]
    rfl
  have hsame : t.indices.keys.toFinset = ((grants replies).map Grant.declaration).toFinset := by
    ext declaration
    rw [hkeys, List.mem_toFinset, List.mem_toFinset, List.mem_eraseDups]
  have hnodup : t.indices.keys.Nodup := t.indices.nodup_keys
  rw [size, Table.size_eq_length_keys, ← hsame, List.toFinset_card_of_nodup hnodup]

/-- An index is refused exactly when the counter of its region has come to the limit. -/
theorem Tallies.assign?_eq_none_iff (h : Tallies base replies t) (declaration : Span)
    (region : Region) : t.assign? declaration region = none ↔ t.next region = counterLimit := by
  have hle : t.next region ≤ counterLimit := h.next_le region
  rw [IndexTable.assign?_eq_none_iff]
  omega

/-- Along every run of a table that starts with a base, the grants of ordinary code have the indices
from zero on and those of injected code the indices from the base on. The next assignment is refused
exactly where its counter has reached the last index, and leaves the table as it was then; else it
is granted the index of the counter. The next lookup answers the last grant of its declaration, and
there are as many entries as declarations with a grant. -/
theorem run_grants_consecutive (base : Nat) (hbase : base ≤ counterLimit)
    (requests : List Request) :
    let replies := ((empty base).run requests).1
    let t := ((empty base).run requests).2
    (grantsIn .normal replies).map Grant.index = List.range (grantsIn .normal replies).length ∧
    (grantsIn .injected replies).map Grant.index =
      List.range' base (grantsIn .injected replies).length ∧
    t.normalNext = (grantsIn .normal replies).length ∧
    t.injectedNext = base + (grantsIn .injected replies).length ∧
    (∀ declaration region,
      (t.assign? declaration region = none ↔ t.next region = counterLimit) ∧
      (t.assign? declaration region = none →
        (empty base).run (requests ++ [.assign declaration region]) =
          (replies ++ [.refused declaration region], t)) ∧
      ∀ index after, t.assign? declaration region = some (index, after) →
        index = t.next region ∧
        (empty base).run (requests ++ [.assign declaration region]) =
          (replies ++ [.granted ⟨declaration, region, index⟩], after)) ∧
    (∀ declaration,
      t.find? declaration = (grantsTo declaration replies).getLast?.map Grant.index ∧
      (empty base).run (requests ++ [.lookup declaration]) =
        (replies ++ [.found declaration
          ((grantsTo declaration replies).getLast?.map Grant.index)], t)) ∧
    t.size = ((grants replies).map Grant.declaration).toFinset.card := by
  intro replies t
  have htallies : Tallies base replies t := tallies_run hbase requests
  refine ⟨?_, htallies.map_index_eq .injected, ?_, htallies.next_eq .injected, ?_, ?_,
    htallies.size_eq⟩
  · rw [List.range_eq_range']
    exact htallies.map_index_eq .normal
  · have hnext := htallies.next_eq .normal
    exact hnext.trans (Nat.zero_add _)
  · intro declaration region
    refine ⟨htallies.assign?_eq_none_iff declaration region, ?_, ?_⟩
    · intro hnone
      rw [run_concat, perform_assign, hnone]
    · intro index after hsome
      refine ⟨(assign?_eq_some hsome).1, ?_⟩
      rw [run_concat, perform_assign, hsome]
  · intro declaration
    have hfind := htallies.find?_eq declaration
    refine ⟨hfind, ?_⟩
    rw [run_concat, ← hfind]
    rfl

/-- A base below the last index grants one injected index; the next is refused, while ordinary code
and the lookups go on as before, also for a declaration that is assigned again. -/
theorem run_grants_consecutive_at_limit :
    let first : Span := ⟨0, 1, by decide⟩
    let second : Span := ⟨2, 3, by decide⟩
    let requests : List Request :=
      [.assign first .injected, .assign second .injected, .assign first .normal]
    let t := ((empty 4294967294).run requests).2
    ((empty 4294967294).run requests).1 =
      [.granted ⟨first, .injected, 4294967294⟩, .refused second .injected,
        .granted ⟨first, .normal, 0⟩] ∧
    t.assign? second .injected = none ∧
    (empty 4294967294).run (requests ++ [.assign second .injected]) =
      (((empty 4294967294).run requests).1 ++ [.refused second .injected], t) ∧
    t.find? first = some 0 ∧ t.find? second = none ∧ t.size = 1 := by
  intro first second requests t
  obtain ⟨-, -, -, -, hassign, hlookup, hsize⟩ :=
    run_grants_consecutive 4294967294 (by decide) requests
  obtain ⟨hiff, hrefused, -⟩ := hassign second .injected
  have hfull : t.next .injected = counterLimit := by decide
  have hnone : t.assign? second .injected = none := hiff.2 hfull
  exact ⟨by decide, hnone, hrefused hnone, (hlookup first).1, (hlookup second).1, hsize⟩

end IndexTable

end SymbolRanges

import Mathlib.Data.List.Induction
import SymbolRanges.IndexTable

/-!
# Filling tables

What a table holds after any number of insertions, and how a table of indices hands out one index
after the other.
-/

set_option autoImplicit false

namespace SymbolRanges

namespace Table

variable {κ ν : Type} [DecidableEq κ]

/-- An entry at the end is inserted last. -/
theorem insertAll_concat (table : Table κ ν) (entries : List (κ × ν)) (entry : κ × ν) :
    table.insertAll (entries ++ [entry]) = (table.insertAll entries).insert entry.1 entry.2 := by
  simp [insertAll]

/-- A key has the value of its last insertion, and the one that it had before if there is none. -/
theorem find?_insertAll (table : Table κ ν) (entries : List (κ × ν)) (key : κ) :
    (table.insertAll entries).find? key =
      ((entries.reverse.find? fun entry => decide (entry.1 = key)).map Prod.snd).or
        (table.find? key) := by
  induction entries using List.reverseRecOn with
  | nil => simp [insertAll]
  | append_singleton entries entry ih =>
    rw [insertAll_concat, find?_insert, List.reverse_concat, List.find?_cons]
    by_cases h : key = entry.1
    · simp [h]
    · have hkey : ¬ entry.1 = key := fun hk => h hk.symm
      simp [h, hkey, ih]

/-- Keys stand in the order of their first insertions. -/
theorem keys_insertAll_empty (entries : List (κ × ν)) :
    ((∅ : Table κ ν).insertAll entries).keys = (entries.map Prod.fst).eraseDups := by
  induction entries using List.reverseRecOn with
  | nil => rfl
  | append_singleton entries entry ih =>
    rw [insertAll_concat, keys_insert, ih, List.map_append, List.eraseDups_append]
    by_cases h : entry.1 ∈ entries.map Prod.fst
    · simp [h, List.mem_eraseDups, List.removeAll]
    · simp [h, List.mem_eraseDups, List.removeAll, List.eraseDups_cons]

/-- What is not inserted keeps its value. -/
theorem find?_insertAll_of_notMem {table : Table κ ν} {entries : List (κ × ν)} {key : κ}
    (h : key ∉ entries.map Prod.fst) : (table.insertAll entries).find? key = table.find? key := by
  have hnone : (entries.reverse.find? fun entry => decide (entry.1 = key)) = none := by
    rw [List.find?_eq_none]
    intro entry hentry
    have hne : entry.1 ≠ key := fun heq =>
      h (List.mem_map.2 ⟨entry, List.mem_reverse.1 hentry, heq⟩)
    simp [hne]
  rw [find?_insertAll, hnone]
  rfl

/-- What is inserted once has the value that it was inserted with. -/
theorem find?_insertAll_of_mem {table : Table κ ν} {entries : List (κ × ν)} {key : κ} {value : ν}
    (hnodup : (entries.map Prod.fst).Nodup) (h : (key, value) ∈ entries) :
    (table.insertAll entries).find? key = some value := by
  induction entries generalizing table with
  | nil => cases h
  | cons entry rest ih =>
    rw [List.map_cons, List.nodup_cons] at hnodup
    rcases List.mem_cons.1 h with rfl | hmem
    · have hrest : ((table.insert key value).insertAll rest).find? key =
          (table.insert key value).find? key := find?_insertAll_of_notMem hnodup.1
      refine Eq.trans hrest ?_
      rw [find?_insert, if_pos rfl]
    · exact ih hnodup.2 hmem

/-- Looking an entry up by its key gives the entry. -/
theorem find?_of_mem_entries {table : Table κ ν} {entry : κ × ν} (h : entry ∈ table.entries) :
    table.find? entry.1 = some entry.2 := by
  obtain ⟨entries, hnodup⟩ := table
  rw [find?, Option.map_eq_some_iff]
  refine ⟨entry, ?_, rfl⟩
  induction entries with
  | nil => cases h
  | cons other rest ih =>
    rw [List.map_cons, List.nodup_cons] at hnodup
    rcases List.mem_cons.1 h with rfl | hmem
    · simp
    · have hne : ¬ other.1 = entry.1 := fun heq =>
        hnodup.1 (List.mem_map.2 ⟨entry, hmem, heq.symm⟩)
      rw [List.find?_cons, decide_eq_false hne]
      exact ih hnodup.2 hmem

/-- The entries of a table are its keys with their values. -/
theorem mem_entries_iff {table : Table κ ν} {key : κ} {value : ν} :
    (key, value) ∈ table.entries ↔ table.find? key = some value := by
  refine ⟨find?_of_mem_entries, ?_⟩
  intro h
  obtain ⟨entry, hfind, rfl⟩ := Option.map_eq_some_iff.1 h
  have hkey : entry.1 = key := by simpa using List.find?_some hfind
  rw [← hkey]
  exact List.mem_of_find?_eq_some hfind

/-- A table holds what entries say, one after the other: each key stands once, where its first entry
stands among the first entries of all keys, and has the value of its last. -/
structure FilledBy (table : Table κ ν) (entries : List (κ × ν)) : Prop where
  nodup_keys : table.keys.Nodup
  keys_eq : table.keys = (entries.map Prod.fst).eraseDups
  find?_eq : ∀ key, table.find? key =
    (entries.filter fun entry => decide (entry.1 = key)).getLast?.map Prod.snd
  find?_of_mem : ∀ entry ∈ table.entries, table.find? entry.1 = some entry.2

/-- A key has the value of an entry behind which no other entry has this key. -/
theorem FilledBy.find?_of_last {table : Table κ ν} {before after : List (κ × ν)} {key : κ}
    {value : ν} (h : table.FilledBy (before ++ (key, value) :: after))
    (hafter : key ∉ after.map Prod.fst) : table.find? key = some value := by
  have hnone : (after.filter fun entry => decide (entry.1 = key)) = [] := by
    rw [List.filter_eq_nil_iff]
    intro entry hentry hkey
    exact hafter (List.mem_map.2 ⟨entry, hentry, of_decide_eq_true hkey⟩)
  rw [h.find?_eq, List.filter_append, List.filter_cons, if_pos (decide_eq_true rfl), hnone,
    List.getLast?_concat, Option.map_some]

/-- The entries of a table are among those that it is filled with. -/
theorem FilledBy.subset {table : Table κ ν} {entries : List (κ × ν)} (h : table.FilledBy entries) :
    table.entries ⊆ entries := by
  intro entry hentry
  have hfind := h.find?_of_mem entry hentry
  rw [h.find?_eq, Option.map_eq_some_iff] at hfind
  obtain ⟨last, hlast, hvalue⟩ := hfind
  obtain ⟨hmem, hkey⟩ := List.mem_filter.1 (List.mem_of_getLast? hlast)
  have hsame : last = entry := Prod.ext (of_decide_eq_true hkey) hvalue
  exact hsame ▸ hmem

/-- Inserting entries into the table without keys fills it with them. -/
theorem filledBy_insertAll (entries : List (κ × ν)) :
    ((∅ : Table κ ν).insertAll entries).FilledBy entries where
  nodup_keys := Table.nodup_keys _
  keys_eq := keys_insertAll_empty entries
  find?_eq key := by
    have hnone : (∅ : Table κ ν).find? key = none := rfl
    rw [find?_insertAll, hnone, Option.or_none, List.getLast?_filter]
  find?_of_mem _ := find?_of_mem_entries

end Table

namespace IndexTable

variable (t : IndexTable)

/-- The table after a declaration was given the next index of a region. -/
def put (declaration : Span) (region : Region) : IndexTable :=
  { t.advance region with indices := t.indices.insert declaration (t.next region) }

/-- The table after declarations were given their indices one after the other. -/
def putAll (ds : List (Span × Region)) : IndexTable :=
  ds.foldl (fun t d => t.put d.1 d.2) t

/-- A handed out index is the next of the region, and it is entered for the declaration. -/
theorem assign?_eq_some {t t' : IndexTable} {declaration : Span} {region : Region} {index : Nat}
    (h : t.assign? declaration region = some (index, t')) :
    index = t.next region ∧ t' = t.put declaration region := by
  unfold assign? at h
  dsimp only at h
  split at h
  · obtain ⟨rfl, rfl⟩ := Prod.mk.inj (Option.some.inj h)
    exact ⟨rfl, rfl⟩
  · cases h

/-- The counter of the region of a declaration moves on by one, and the other stands still. -/
theorem next_put (declaration : Span) (region other : Region) :
    (t.put declaration region).next other =
      t.next other + if region = other then 1 else 0 := by
  cases region <;> cases other <;> rfl

end IndexTable

end SymbolRanges

/-!
# Tables in order of first insertion

A table holds at most one value for each key. A key keeps the place of its first insertion, and
its value is that of the last: `keys_insert` and `find?_insert` say so.
-/

set_option autoImplicit false

namespace SymbolRanges

variable {κ ν : Type}

/-- The values of finitely many keys, in the order in which the keys were first inserted. -/
structure Table (κ ν : Type) where
  entries : List (κ × ν)
  nodup_keys : (entries.map Prod.fst).Nodup

namespace Table

/-- The table without keys. -/
def empty : Table κ ν := ⟨[], List.nodup_nil⟩

instance : EmptyCollection (Table κ ν) := ⟨empty⟩

instance : Inhabited (Table κ ν) := ⟨empty⟩

/-- The keys, in order of first insertion. -/
def keys (table : Table κ ν) : List κ := table.entries.map Prod.fst

/-- The values, in the order of their keys. -/
def values (table : Table κ ν) : List ν := table.entries.map Prod.snd

/-- The number of keys. -/
def size (table : Table κ ν) : Nat := table.entries.length

/-- Whether there is no key. -/
def isEmpty (table : Table κ ν) : Bool := table.entries.isEmpty

/-- The number of keys is the length of their list. -/
theorem size_eq_length_keys (table : Table κ ν) : table.size = table.keys.length := by
  simp [size, keys]

variable [DecidableEq κ]

/-- Replaces the value of a key where it stands, or appends the key. -/
def put (key : κ) (value : ν) : List (κ × ν) → List (κ × ν)
  | [] => [(key, value)]
  | entry :: rest =>
    if entry.1 = key then (key, value) :: rest else entry :: put key value rest

/-- Putting a value keeps the places of all keys, and a new key goes to the end. -/
theorem map_fst_put (key : κ) (value : ν) (entries : List (κ × ν)) :
    (put key value entries).map Prod.fst =
      if key ∈ entries.map Prod.fst then entries.map Prod.fst
      else entries.map Prod.fst ++ [key] := by
  induction entries with
  | nil => simp [put]
  | cons entry rest ih =>
    by_cases h : entry.1 = key
    · simp [put, h]
    · by_cases hm : key ∈ rest.map Prod.fst
      · rw [if_pos hm] at ih
        have hc : key ∈ (entry :: rest).map Prod.fst := List.mem_cons_of_mem _ hm
        rw [if_pos hc, put, if_neg h, List.map_cons, ih, List.map_cons]
      · have hn : key ∉ (entry :: rest).map Prod.fst := fun hk =>
          (List.mem_cons.1 hk).elim (fun he => h he.symm) hm
        rw [if_neg hm] at ih
        rw [if_neg hn, put, if_neg h, List.map_cons, ih, List.map_cons, List.cons_append]

/-- Gives a key a value: in its place if it is there already, else behind all others. -/
def insert (table : Table κ ν) (key : κ) (value : ν) : Table κ ν where
  entries := put key value table.entries
  nodup_keys := by
    rw [map_fst_put]
    split
    · exact table.nodup_keys
    · next h =>
      rw [List.nodup_append]
      refine ⟨table.nodup_keys, by simp, fun a ha b hb => ?_⟩
      rw [List.mem_singleton.1 hb]
      rintro rfl
      exact h ha

/-- The value of a key, if it has one. -/
def find? (table : Table κ ν) (key : κ) : Option ν :=
  (table.entries.find? fun entry => decide (entry.1 = key)).map Prod.snd

/-- Whether a key has a value. -/
def contains (table : Table κ ν) (key : κ) : Bool := (table.find? key).isSome

/-- Inserts entries one after the other. -/
def insertAll (table : Table κ ν) (entries : List (κ × ν)) : Table κ ν :=
  entries.foldl (fun table entry => table.insert entry.1 entry.2) table

/-- A key that is inserted again stays where it was; a new one goes to the end. -/
@[simp] theorem keys_insert (table : Table κ ν) (key : κ) (value : ν) :
    (table.insert key value).keys =
      if key ∈ table.keys then table.keys else table.keys ++ [key] :=
  map_fst_put key value table.entries

/-- No key has a value in the empty table. -/
@[simp] theorem find?_empty (key : κ) : (empty : Table κ ν).find? key = none := rfl

/-- After a value was put its key has this value, and every other key keeps its own. -/
theorem find?_put (key other : κ) (value : ν) (entries : List (κ × ν)) :
    ((put key value entries).find? fun entry => decide (entry.1 = other)).map Prod.snd =
      if other = key then some value
      else (entries.find? fun entry => decide (entry.1 = other)).map Prod.snd := by
  induction entries with
  | nil =>
    by_cases h : other = key
    · simp [put, h]
    · have hk : ¬ key = other := fun hk => h hk.symm
      simp [put, h, hk]
  | cons entry rest ih =>
    by_cases h : entry.1 = key
    · by_cases ho : other = key
      · simp [put, h, ho]
      · have hk : ¬ key = other := fun hk => ho hk.symm
        simp [put, h, ho, hk]
    · by_cases ho : entry.1 = other
      · have hne : ¬ other = key := fun hk => h (ho.trans hk)
        simp [put, ho, hne]
      · simp only [put, if_neg h, List.find?_cons, ho, decide_false]
        exact ih

/-- After an insertion its key has the new value, and every other key keeps its own. -/
@[simp] theorem find?_insert (table : Table κ ν) (key other : κ) (value : ν) :
    (table.insert key value).find? other = if other = key then some value else table.find? other :=
  find?_put key other value table.entries

end Table

end SymbolRanges

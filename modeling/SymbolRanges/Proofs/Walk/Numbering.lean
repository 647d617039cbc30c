import SymbolRanges.Options
import SymbolRanges.Proofs.IndexTable
import SymbolRanges.Proofs.Walk.Variables

/-!
# The numbering of local variables

The variables of a stretch of code are numbered by region. A construct stands in the region that
the last marker comment before it in pre-order switches to, and in ordinary code if there is none.
The variables come in the order of their constructs, and each has the number of variables of its
region before it, counted from the first index of the region.

`Options.numberedVariables` says this of a list of items at once. A walk goes through the items
one by one, with a region and a table of indices at hand; `variablesFrom` and `numberedFrom` follow
it, and `variablesFrom_normal` and `numberedFrom_empty` say that both come to the same.
-/

set_option autoImplicit false

namespace SymbolRanges

/-- The region that an item switches to, if it is a marker comment. -/
def Item.marker? (options : Options) : Item → Option Region
  | .node _ => none
  | .token t => if t.kind = .lineComment then options.marker? t.text else none

namespace Options

variable (options : Options)

/-- The region after items: the one that the last marker among them switches to. -/
def regionAfter (items : List Item) : Region :=
  (items.filterMap (Item.marker? options)).getLast?.getD .normal

/-- The variables that items declare, each with the region of its construct. -/
def localVariables (items : List Item) : List (Token × Region) :=
  items.zipIdx.flatMap fun (item, place) =>
    item.variableNames.map fun name => (name, options.regionAfter (items.take place))

/-- The first index of a region. -/
def firstIndex : Region → Nat
  | .normal => 0
  | .injected => options.injectedBase

/-- Variables with their indices: to the first index of the region of a variable comes the number
of variables of that region before it. -/
def numbered (vs : List (Token × Region)) : List (Token × Nat) :=
  vs.zipIdx.map fun (v, place) =>
    (v.1, options.firstIndex v.2 + (vs.take place).countP fun u => decide (u.2 = v.2))

/-- The variables that items declare, with their indices. -/
def numberedVariables (items : List Item) : List (Token × Nat) :=
  options.numbered (options.localVariables items)

/-! ### Region by region -/

/-- The variables that items declare when they are entered in a region. -/
def variablesFrom : Region → List Item → List (Token × Region)
  | _, [] => []
  | region, item :: rest =>
    item.variableNames.map (fun name => (name, region)) ++
      variablesFrom ((item.marker? options).getD region) rest

/-- The region after items that are entered in a region. -/
def regionFrom : Region → List Item → Region
  | region, [] => region
  | region, item :: rest => regionFrom ((item.marker? options).getD region) rest

/-- The region after one more item is that of its marker, if it is one. -/
theorem regionAfter_concat (items : List Item) (item : Item) :
    options.regionAfter (items ++ [item]) =
      (item.marker? options).getD (options.regionAfter items) := by
  unfold regionAfter
  rw [List.filterMap_append]
  cases h : item.marker? options with
  | none => simp [h]
  | some region => simp [h]

/-- Entered in the region after what stands before them, items declare their variables in the
regions that the whole list gives them. -/
theorem variablesFrom_regionAfter (before items : List Item) :
    options.variablesFrom (options.regionAfter before) items =
      items.zipIdx.flatMap fun (item, place) => item.variableNames.map fun name =>
        (name, options.regionAfter (before ++ items.take place)) := by
  induction items generalizing before with
  | nil => rfl
  | cons item rest ih =>
    have hrest := ih (before ++ [item])
    rw [regionAfter_concat] at hrest
    rw [variablesFrom, hrest, List.zipIdx_cons', List.flatMap_cons, List.flatMap_map]
    simp only [List.take_zero, List.append_nil, List.append_assoc, List.cons_append,
      List.nil_append]
    rfl

/-- Items entered in ordinary code declare the variables that they have as a whole. -/
theorem variablesFrom_normal (items : List Item) :
    options.variablesFrom .normal items = options.localVariables items := by
  have h := options.variablesFrom_regionAfter [] items
  exact h

/-- The region after two lists of items is that after the second, entered from the first. -/
theorem regionFrom_append (region : Region) (xs ys : List Item) :
    options.regionFrom region (xs ++ ys) =
      options.regionFrom (options.regionFrom region xs) ys := by
  induction xs generalizing region with
  | nil => rfl
  | cons item xs ih => exact ih _

/-- Two lists of items declare the variables of both, the second entered from the first. -/
theorem variablesFrom_append (region : Region) (xs ys : List Item) :
    options.variablesFrom region (xs ++ ys) =
      options.variablesFrom region xs ++
        options.variablesFrom (options.regionFrom region xs) ys := by
  induction xs generalizing region with
  | nil => rfl
  | cons item xs ih =>
    rw [List.cons_append, variablesFrom, variablesFrom, ih, List.append_assoc]
    rfl

end Options

/-! ### Index by index -/

namespace IndexTable

/-- The spans of the names of variables, with their regions. -/
def places (vs : List (Token × Region)) : List (Span × Region) :=
  vs.map fun v => (v.1.span, v.2)

/-- Variables with the indices that a table hands out to them one after the other. -/
def numberedFrom : IndexTable → List (Token × Region) → List (Token × Nat)
  | _, [] => []
  | t, v :: rest => (v.1, t.next v.2) :: numberedFrom (t.put v.1.span v.2) rest

/-- Variables are entered one list after the other. -/
theorem putAll_places_append (t : IndexTable) (xs ys : List (Token × Region)) :
    t.putAll (places (xs ++ ys)) = (t.putAll (places xs)).putAll (places ys) := by
  unfold places putAll
  rw [List.map_append, List.foldl_append]

/-- Variables of a second list are numbered after those of the first. -/
theorem numberedFrom_append (t : IndexTable) (xs ys : List (Token × Region)) :
    t.numberedFrom (xs ++ ys) = t.numberedFrom xs ++ (t.putAll (places xs)).numberedFrom ys := by
  induction xs generalizing t with
  | nil => rfl
  | cons v xs ih =>
    rw [List.cons_append, numberedFrom, numberedFrom, ih, List.cons_append]
    rfl

/-- Numbering keeps the variables and their order. -/
theorem map_fst_numberedFrom (t : IndexTable) (vs : List (Token × Region)) :
    (t.numberedFrom vs).map Prod.fst = vs.map Prod.fst := by
  induction vs generalizing t with
  | nil => rfl
  | cons v rest ih => rw [numberedFrom, List.map_cons, List.map_cons, ih]

/-- The index of a variable is the one that its region starts with and the number of variables of
the region before it. -/
theorem numberedFrom_eq (t : IndexTable) (vs : List (Token × Region)) :
    t.numberedFrom vs =
      vs.zipIdx.map fun (v, place) =>
        (v.1, t.next v.2 + (vs.take place).countP fun u => decide (u.2 = v.2)) := by
  induction vs generalizing t with
  | nil => rfl
  | cons v rest ih =>
    rw [numberedFrom, ih, List.zipIdx_cons', List.map_cons, List.map_map]
    congr 1
    apply List.map_congr_left
    rintro ⟨u, place⟩ -
    simp only [Function.comp, Prod.map_apply, id_eq, List.take_succ_cons, List.countP_cons,
      next_put, decide_eq_true_eq]
    congr 1
    omega

/-- The table of a walk that starts afresh numbers variables as the options say. -/
theorem numberedFrom_empty (options : Options) (vs : List (Token × Region)) :
    (IndexTable.empty options.injectedBase).numberedFrom vs = options.numbered vs := by
  have hnext (region : Region) :
      (IndexTable.empty options.injectedBase).next region = options.firstIndex region := by
    cases region <;> rfl
  rw [numberedFrom_eq]
  unfold Options.numbered
  simp only [hnext]

end IndexTable

end SymbolRanges

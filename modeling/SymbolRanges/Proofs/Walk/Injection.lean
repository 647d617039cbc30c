import SymbolRanges.Proofs.Walk.Outline
import SymbolRanges.Proofs.Walk.Regions

/-!
# Injected code does not shift indices

The declarations of each region have consecutive indices (`Scope.declarationsIn_eq`), so those of
ordinary code follow from the names of its variables alone. Code between two markers that is
inserted into a block adds no such name, wherever the block stands and whatever the code declares:
`walk_keeps_normal_indices`.
-/

set_option autoImplicit false

namespace SymbolRanges

namespace Scope

variable (scope : Scope)

/-- The declarations that a walk through a node records while it is in a region. -/
def declarationsIn (region : Region) (n : Node) : List Record :=
  (List.range n.preorder.length).flatMap fun place =>
    if (scope.stateAt n place).region = region then scope.declarationsAt n place else []

variable {scope} {n : Node} (h : ((scope.walk n).run (.initial scope.options)).result = .ok ())

include h

/-- The region of a walk some places on is that of the markers among them. -/
theorem region_stateAt_add (first count : Nat) :
    (scope.stateAt n (first + count)).region =
      scope.options.regionFrom (scope.stateAt n first).region
        ((n.preorder.drop first).take count) := by
  rw [region_stateAt h, region_stateAt h, List.take_add, Options.regionFrom_append]

/-- The declarations of a region in a stretch of places have consecutive indices. -/
theorem declarations_stretch (region : Region) {first count : Nat}
    (hcount : first + count ≤ n.preorder.length) :
    let names := scope.options.namesIn region (scope.stateAt n first).region
      ((n.preorder.drop first).take count)
    (List.range' first count).flatMap (fun place =>
        if (scope.stateAt n place).region = region then scope.declarationsAt n place else []) =
      scope.consecutiveRecords ((scope.stateAt n first).locals.next region) names ∧
    (scope.stateAt n (first + count)).locals.next region =
      (scope.stateAt n first).locals.next region + names.length := by
  -- by induction on the length of the stretch, with the counter carried along: the item behind a
  -- stretch declares its variables only if the walk comes to it in the region
  induction count with
  | zero => exact ⟨rfl, rfl⟩
  | succ count ih =>
    intro names
    obtain ⟨hrecords, hnext⟩ := ih (by omega)
    have hlt : first + count < n.preorder.length := by omega
    have hitem : n.preorder[first + count]? = some n.preorder[first + count] :=
      List.getElem?_eq_getElem hlt
    have hnames : names = scope.options.namesIn region (scope.stateAt n first).region
          ((n.preorder.drop first).take count) ++
        if (scope.stateAt n (first + count)).region = region then
          n.preorder[first + count].variableNames else [] := by
      show scope.options.namesIn _ _ ((n.preorder.drop first).take (count + 1)) = _
      rw [List.take_add_one, List.getElem?_drop, hitem, Option.toList_some, Options.namesIn_append,
        ← region_stateAt_add h, Options.namesIn_cons]
      exact congrArg _ (List.append_nil _)
    rw [List.range'_1_concat, List.flatMap_append, List.flatMap_singleton, hrecords, hnames,
      consecutiveRecords_append, List.length_append, ← Nat.add_assoc first,
      next_stateAt_succ h hitem, hnext, ← Nat.add_assoc]
    by_cases hregion : (scope.stateAt n (first + count)).region = region
    · rw [if_pos hregion, if_pos hregion, if_pos hregion, declarationsAt_eq h hitem, hregion, hnext]
      exact ⟨rfl, rfl⟩
    · rw [if_neg hregion, if_neg hregion, if_neg hregion]
      exact ⟨rfl, rfl⟩

/-- The declarations of a region have consecutive indices from the first one of the region. -/
theorem declarationsIn_eq (region : Region) :
    scope.declarationsIn region n = scope.consecutiveRecords (scope.options.firstIndex region)
      (scope.options.namesIn region .normal n.preorder) := by
  obtain ⟨hrecords, -⟩ := declarations_stretch h region (Nat.le_of_eq (Nat.zero_add _))
  have hfirst : (scope.stateAt n 0).locals.next region = scope.options.firstIndex region := by
    cases region <;> rfl
  unfold declarationsIn
  rw [List.range_eq_range', hrecords, hfirst, List.drop_zero, List.take_length]
  rfl

/-- Code without markers draws consecutive indices from the counter of the region that it is entered
in. -/
theorem declarations_of_no_marker {before items after : List Item}
    (hsplit : n.preorder = before ++ items ++ after)
    (hitems : ∀ item ∈ items, item.marker? scope.options = none) :
    (List.range' before.length items.length).flatMap (scope.declarationsAt n) =
      scope.consecutiveRecords ((scope.stateAt n before.length).locals.next
        (scope.stateAt n before.length).region) (items.flatMap Item.variableNames) := by
  have hstretch : (n.preorder.drop before.length).take items.length = items := by
    rw [hsplit, List.append_assoc, List.drop_left, List.take_left]
  have hlength : before.length + items.length ≤ n.preorder.length := by
    rw [hsplit, List.length_append, List.length_append]
    omega
  have hregion : ∀ place ∈ List.range' before.length items.length,
      (scope.stateAt n place).region = (scope.stateAt n before.length).region := by
    intro place hplace
    obtain ⟨hle, hlt⟩ := List.mem_range'_1.1 hplace
    obtain ⟨i, rfl⟩ := Nat.exists_eq_add_of_le hle
    rw [region_stateAt_add h]
    apply Options.regionFrom_of_no_marker
    intro item hitem
    apply hitems
    rw [← hstretch]
    exact (List.take_sublist_take_left (by omega)).subset hitem
  obtain ⟨hrecords, -⟩ := declarations_stretch h (scope.stateAt n before.length).region hlength
  rw [hstretch, Options.namesIn_of_no_marker _ _ hitems] at hrecords
  rw [← hrecords]
  apply List.flatMap_congr
  intro place hplace
  rw [if_pos (hregion place hplace)]

end Scope

/-- The names and indices of consecutive declarations follow from the texts of the names. -/
theorem Scope.map_name_index_consecutiveRecords (scope : Scope) (first : Nat)
    (names : List Token) :
    (scope.consecutiveRecords first names).map (fun r => (r.identity.name, r.identity.index)) =
      (names.map Token.text).zipIdx.map fun (text, j) => (text, some (first + j)) := by
  unfold Scope.consecutiveRecords
  rw [List.map_map, List.zipIdx_map, List.map_map]
  rfl

/-- Let two nodes be alike but for a block at any depth, where one has code without markers between
an opening and a closing marker in addition, at a point where the walk through the other is in
ordinary code. Whatever the two are walked for, if both walks succeed, they give the variables of
ordinary code the same names and indices, and they number the variables of the inserted code one
after the other from the base of injected indices or later. In both walks, what is declared place by
place is what the visits declare. -/
theorem walk_keeps_normal_indices (scope scope' : Scope) (hoptions : scope'.options = scope.options)
    (n n' : Node) (frames : List Frame) (cs₁ inj cs₂ : List Element) (opening closing : String)
    (hn : Element.node n.kind n.children = Element.within frames (.node .codeBlock (cs₁ ++ cs₂)))
    (hn' : Element.node n'.kind n'.children = Element.within frames (.node .codeBlock
      (cs₁ ++ [.token .lineComment opening] ++ inj ++ [.token .lineComment closing] ++ cs₂)))
    (hopening : scope.options.marker? opening = some .injected)
    (hclosing : scope.options.marker? closing = some .normal)
    (hinj : ∀ o ∈ Element.outlines scope.options inj, o.marker? = none)
    (hok : ((scope.walk n).run (.initial scope.options)).result = .ok ())
    (hok' : ((scope'.walk n').run (.initial scope'.options)).result = .ok ())
    (hnormal : (scope.stateAt n (Frame.placesAbove frames + Element.count cs₁)).region = .normal) :
    (scope'.declarationsIn .normal n').map (fun r => (r.identity.name, r.identity.index)) =
      (scope.declarationsIn .normal n).map (fun r => (r.identity.name, r.identity.index)) ∧
    (∃ before position after index,
      n'.preorder = before ++ Element.preorderAll n'.tree position inj ++ after ∧
      before.length = Frame.placesAbove frames + Element.count cs₁ + 1 ∧
      scope.options.injectedBase ≤ index ∧
      (List.range' before.length (Element.count inj)).flatMap (scope'.declarationsAt n') =
        scope'.consecutiveRecords index
          ((Element.preorderAll n'.tree position inj).flatMap Item.variableNames)) ∧
    (List.range n.preorder.length).flatMap (scope.declarationsAt n) =
      (scope.visits n.walkSteps).flatMap Visit.declarationRecords ∧
    (List.range n'.preorder.length).flatMap (scope'.declarationsAt n') =
      (scope'.visits n'.walkSteps).flatMap Visit.declarationRecords := by
  -- both claims are read off the outlines, which do not depend on where the two nodes stand
  let options := scope.options
  obtain ⟨xs, ys, before, position, after, hlength, houtline, hsplit, hbefore, hafter⟩ :=
    Element.exists_outline_insertion hn hn' hopening hclosing
  have houtline' : n'.preorder.map (Item.outline options) =
      xs ++ [⟨some .injected, []⟩] ++ Element.outlines options inj ++
        ([⟨some .normal, []⟩] ++ ys) := by
    rw [hsplit, List.map_append, List.map_append, hbefore, hafter, Element.map_outline_preorderAll]
  have hregion : Outline.regionFrom .normal xs = .normal := by
    rw [← hlength, Scope.region_stateAt hok, Options.regionFrom_eq_outline, List.map_take, houtline,
      List.take_left] at hnormal
    exact hnormal
  have hregion' : (scope'.stateAt n' before.length).region = .injected := by
    rw [Scope.region_stateAt hok', hoptions, hsplit, List.append_assoc, List.take_left,
      Options.regionFrom_eq_outline, hbefore, Outline.regionFrom, List.foldl_append]
    rfl
  have hplace : before.length = Frame.placesAbove frames + Element.count cs₁ + 1 := by
    have hcount := congrArg List.length hbefore
    rw [List.length_map, List.length_append, hlength] at hcount
    exact hcount
  have hitems : ∀ item ∈ Element.preorderAll n'.tree position inj,
      item.marker? scope'.options = none := by
    intro item hitem
    have hmem := List.mem_map_of_mem (f := Item.outline options) hitem
    rw [Element.map_outline_preorderAll] at hmem
    rw [hoptions]
    exact hinj _ hmem
  refine ⟨?_, ⟨before, position, after,
    (scope'.stateAt n' before.length).locals.next .injected, hsplit, hplace, ?_, ?_⟩,
    Scope.flatMap_declarationsAt hok, Scope.flatMap_declarationsAt hok'⟩
  · rw [Scope.declarationsIn_eq hok', Scope.declarationsIn_eq hok,
      Scope.map_name_index_consecutiveRecords, Scope.map_name_index_consecutiveRecords, hoptions,
      Options.map_text_namesIn, Options.map_text_namesIn, houtline, houtline',
      Outline.namesIn_insert _ hregion hinj]
  · rw [Scope.next_stateAt hok', hoptions]
    exact Nat.le_add_right _ _
  · have hrecords := Scope.declarations_of_no_marker hok' hsplit hitems
    rw [Element.length_preorderAll, hregion'] at hrecords
    exact hrecords

/-- A statement that declares one variable. -/
def declarationOf (name : String) : Element :=
  .node .declarationStatement [.node .localVariable [.token .ident name]]

/-- A block that holds another one after the declaration of `a`. -/
def nestedBlocks (children : List Element) : Node :=
  ⟨⟨0⟩, 0, .codeBlock, [declarationOf "a", .node .codeBlock children]⟩

/-- Two injected variables between `b` and `c` leave the indices of these as they are. -/
theorem walk_keeps_normal_indices_nested :
    let scope : Scope := ⟨.ofText "A.java" "" Bindings.empty.resolver {}, "A", ⟨"m", "()V"⟩⟩
    let n := nestedBlocks [declarationOf "b", declarationOf "c"]
    let n' := nestedBlocks
      [declarationOf "b", .token .lineComment "// tag start", declarationOf "x",
        declarationOf "y", .token .lineComment "// tag end", declarationOf "c"]
    (scope.declarationsIn .normal n).map (fun r => (r.identity.name, r.identity.index)) =
      [("a", some 0), ("b", some 1), ("c", some 2)] ∧
    (scope.declarationsIn .normal n').map (fun r => (r.identity.name, r.identity.index)) =
      [("a", some 0), ("b", some 1), ("c", some 2)] := by
  intro scope n n'
  have hindices : (scope.declarationsIn .normal n).map
      (fun r => (r.identity.name, r.identity.index)) =
        [("a", some 0), ("b", some 1), ("c", some 2)] := by
    decide +kernel
  have hkept := (walk_keeps_normal_indices scope scope rfl n n'
    [⟨.codeBlock, [declarationOf "a"], []⟩] [declarationOf "b"]
    [declarationOf "x", declarationOf "y"] [declarationOf "c"] "// tag start" "// tag end"
    rfl rfl (by decide +kernel) (by decide +kernel) (by decide +kernel) (by decide +kernel)
    (by decide +kernel) (by decide +kernel)).1
  exact ⟨hindices, hkept.trans hindices⟩

end SymbolRanges

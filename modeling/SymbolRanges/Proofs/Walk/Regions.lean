import SymbolRanges.Proofs.Tree.Tokens
import SymbolRanges.Proofs.Walk.Declarations

/-!
# The region that a variable is counted in

A walk comes to the items of its code one place after the other. `Scope.stateAt` is its state at a
place and `Scope.declarationsAt` what it declares there; `Scope.flatMap_declarationsAt` says that
this is what its visits declare. `Scope.declarationsAt_eq` reads the declarations off the state, and
`Scope.next_stateAt_succ` says how the counters move on.

A construct declares its variables as soon as the walk comes to it. So their region is that of the
last marker that ends before the construct, not before their names, and a marker between the two
counts only for what follows the construct: `walk_counts_in_region_of_construct`.
-/

set_option autoImplicit false

namespace SymbolRanges

/-! ### Counting in one region -/

namespace IndexTable

/-- Variables of one region get consecutive indices. -/
theorem numberedFrom_map (t : IndexTable) (names : List Token) (region : Region) :
    t.numberedFrom (names.map fun name => (name, region)) =
      names.zipIdx.map fun (name, place) => (name, t.next region + place) := by
  induction names generalizing t with
  | nil => rfl
  | cons name rest ih =>
    rw [List.map_cons, numberedFrom, ih, List.zipIdx_cons', List.map_cons, List.map_map]
    congr 1
    apply List.map_congr_left
    rintro ⟨other, place⟩ -
    simp only [Function.comp, Prod.map_apply, id_eq, next_put, if_true]
    congr 1
    omega

/-- A counter moves on by the number of variables of its region. -/
theorem next_putAll_places (t : IndexTable) (vs : List (Token × Region)) (region : Region) :
    (t.putAll (places vs)).next region =
      t.next region + vs.countP fun v => decide (v.2 = region) := by
  induction vs generalizing t with
  | nil => rfl
  | cons v rest ih =>
    have hrest : (t.putAll (places (v :: rest))).next region =
        ((t.put v.1.span v.2).putAll (places rest)).next region := rfl
    rw [hrest, ih, next_put, List.countP_cons]
    simp only [decide_eq_true_eq]
    omega

end IndexTable

/-! ### The walk at a place -/

namespace Scope

variable (scope : Scope)

/-- The records of the declarations of variables with consecutive indices. -/
def consecutiveRecords (first : Nat) (names : List Token) : List Record :=
  names.zipIdx.map fun (name, j) => scope.variableRecord name (first + j)

/-- Consecutive indices go on where the first names end. -/
theorem consecutiveRecords_append (first : Nat) (xs ys : List Token) :
    scope.consecutiveRecords first (xs ++ ys) =
      scope.consecutiveRecords first xs ++ scope.consecutiveRecords (first + xs.length) ys := by
  have hshift : ys.zipIdx xs.length = ys.zipIdx.map fun (name, j) => (name, xs.length + j) :=
    List.zipIdx_eq_map_add
  unfold consecutiveRecords
  rw [List.zipIdx_append, List.map_append, Nat.zero_add, hshift, List.map_map]
  simp only [Function.comp_def, Nat.add_assoc]

/-- The state of a walk through a node when it comes to a place of the pre-order. -/
def stateAt (n : Node) (place : Nat) : WalkState :=
  (((n.preorder.take place).forM scope.visit).run (.initial scope.options)).state

/-- The declarations that a walk through a node records at a place of the pre-order. -/
def declarationsAt (n : Node) (place : Nat) : List Record :=
  n.preorder[place]?.toList.flatMap fun item => Visit.declarationRecords
    ⟨.visit item, ((scope.visit item).run (scope.stateAt n place)).journal⟩

variable {scope} {n : Node} (h : ((scope.walk n).run (.initial scope.options)).result = .ok ())

include h

/-- A walk that succeeds has succeeded up to every place. -/
theorem result_take_of_ok (place : Nat) :
    (((n.preorder.take place).forM scope.visit).run (.initial scope.options)).result = .ok () := by
  unfold walk at h
  rw [← List.take_append_drop place n.preorder, Scan.forM_append] at h
  obtain ⟨_, hok, -⟩ := Scan.result_bind_eq_ok h
  exact hok

/-- What a walk declares, place by place, is what its visits declare. -/
theorem flatMap_declarationsAt :
    (List.range n.preorder.length).flatMap (scope.declarationsAt n) =
      (scope.visits n.walkSteps).flatMap Visit.declarationRecords := by
  rw [walk_eq] at h
  have hlength : n.walkSteps.length = n.preorder.length := List.length_map _
  rw [visits, Scan.visits_eq_of_ok h, hlength, List.flatMap_assoc]
  apply List.flatMap_congr
  intro place _
  have hstate : (((n.walkSteps.take place).forM scope.perform).run
      (.initial scope.options)).state = scope.stateAt n place := by
    rw [stateAt, Node.walkSteps, ← List.map_take, Scan.forM_map]
    rfl
  rw [hstate, Node.walkSteps, List.getElem?_map, declarationsAt]
  cases n.preorder[place]? <;> rfl

/-- The steps before a place advance the walk to its state there. -/
theorem advances_stateAt (place : Nat) :
    WalkState.Advances scope.options ((n.preorder.take place).map .visit)
      (.initial scope.options) (scope.stateAt n place) := by
  have hsteps : (n.preorder.take place).forM scope.visit =
      ((n.preorder.take place).map WalkStep.visit).forM scope.perform := by
    rw [Scan.forM_map]
    rfl
  have hok := result_take_of_ok h place
  unfold stateAt
  rw [hsteps] at hok ⊢
  exact (scope.run_forM_perform hok).1

/-- The region of a walk at a place is set by the markers before it. -/
theorem region_stateAt (place : Nat) :
    (scope.stateAt n place).region =
      scope.options.regionFrom .normal (n.preorder.take place) := by
  have hregion := (advances_stateAt h place).region
  rw [List.filterMap_map] at hregion
  exact hregion.trans (congrArg _ List.filterMap_some)

/-- A counter at a place has moved on by the number of variables before it in the region. -/
theorem next_stateAt (place : Nat) (region : Region) :
    (scope.stateAt n place).locals.next region = scope.options.firstIndex region +
      (scope.options.variablesFrom .normal (n.preorder.take place)).countP
        fun v => decide (v.2 = region) := by
  have hlocals := (advances_stateAt h place).locals
  have hitems : ((n.preorder.take place).map WalkStep.visit).filterMap WalkStep.item? =
      n.preorder.take place := by
    rw [List.filterMap_map]
    exact List.filterMap_some
  have hfirst : (WalkState.initial scope.options).locals.next region =
      scope.options.firstIndex region := by
    cases region <;> rfl
  rw [hlocals, IndexTable.next_putAll_places, hitems, hfirst]
  rfl

variable {place : Nat} {item : Item} (hitem : n.preorder[place]? = some item)

include hitem

/-- The variables of an item get the next indices of the region that the walk is in. -/
theorem declarationsAt_eq :
    scope.declarationsAt n place = scope.consecutiveRecords
      ((scope.stateAt n place).locals.next (scope.stateAt n place).region)
      item.variableNames := by
  have hstep : ((scope.perform (.visit item)).run (scope.stateAt n place)).result = .ok () := by
    have hok := result_take_of_ok h (place + 1)
    rw [List.take_add_one, hitem, Scan.forM_append] at hok
    obtain ⟨_, -, hlast⟩ := Scan.result_bind_eq_ok hok
    obtain ⟨_, hvisit, -⟩ := Scan.result_bind_eq_ok hlast
    exact hvisit
  have hrecords := (scope.perform_advances hstep).2
  have hvariables (region : Region) :
      scope.options.variablesFrom region ([WalkStep.visit item].filterMap WalkStep.item?) =
        item.variableNames.map fun name => (name, region) :=
    List.append_nil _
  unfold declarationsAt
  rw [hitem, Option.toList_some, List.flatMap_singleton]
  refine hrecords.trans ?_
  unfold declarationsFrom
  rw [hvariables, IndexTable.numberedFrom_map, List.map_map]
  rfl

/-- Past an item the counter of the region has moved on by the number of its variables, and the
other counter has not moved. -/
theorem next_stateAt_succ (region : Region) :
    (scope.stateAt n (place + 1)).locals.next region = (scope.stateAt n place).locals.next region +
      if (scope.stateAt n place).region = region then item.variableNames.length else 0 := by
  have hvariables : scope.options.variablesFrom .normal (n.preorder.take (place + 1)) =
      scope.options.variablesFrom .normal (n.preorder.take place) ++
        item.variableNames.map fun name => (name, (scope.stateAt n place).region) := by
    rw [List.take_add_one, hitem, Options.variablesFrom_append, region_stateAt h]
    exact congrArg _ (List.append_nil _)
  rw [next_stateAt h, next_stateAt h, hvariables, List.countP_append, List.countP_map,
    Nat.add_assoc]
  congr 2
  split
  · next hregion => simp [Function.comp_def, hregion]
  · next hregion => simp [Function.comp_def, hregion]

end Scope

/-! ### Markers before a position -/

/-- The place where an item begins: a token stands for itself, and for a node stands an empty
token. -/
def Item.mark : Item → Token
  | .node n => ⟨n.start, n.kind, ""⟩
  | .token t => t

/-- One token is in order. -/
theorem Token.InOrder.singleton (t : Token) : InOrder t.span.start t.span.stop [t] where
  le := Nat.le_add_right _ _
  bounds := by
    intro s hs
    rw [List.mem_singleton.1 hs]
    exact ⟨Nat.le_refl _, Nat.le_refl _⟩
  pairwise := List.pairwise_singleton _ _

namespace Element

mutual

/-- The items of an element begin in the order of its pre-order. -/
theorem inOrder_marks_preorder (tree : TreeId) (start : Nat) (e : Element) :
    Token.InOrder start (start + e.size) ((e.preorder tree start).map Item.mark) := by
  cases e with
  | token kind text => exact .singleton ⟨start, kind, text⟩
  | node kind children =>
    have hself : Token.InOrder start start [⟨start, kind, ""⟩] := .singleton ⟨start, kind, ""⟩
    exact hself.append (inOrder_marks_preorderAll tree start children)

/-- The items of consecutive elements begin in the order of their pre-order. -/
theorem inOrder_marks_preorderAll (tree : TreeId) (start : Nat) (es : List Element) :
    Token.InOrder start (start + sizeAll es) ((preorderAll tree start es).map Item.mark) := by
  cases es with
  | nil => exact Token.InOrder.nil (Nat.le_refl _)
  | cons e rest =>
    have hrest := inOrder_marks_preorderAll tree (start + e.size) rest
    rw [preorderAll, List.map_append, sizeAll, ← Nat.add_assoc]
    exact (inOrder_marks_preorder tree start e).append hrest

end

end Element

namespace Node

/-- The items below a node begin in the order of its pre-order. -/
theorem inOrder_marks (n : Node) :
    Token.InOrder n.start (n.start + Element.sizeAll n.children) (n.preorder.map Item.mark) :=
  Element.inOrder_marks_preorder n.tree n.start (.node n.kind n.children)

variable {n d : Node} {place : Nat} (hd : n.preorder[place]? = some (.node d))

include hd

/-- The pre-order around a node: what is met before it, the node, and what is met after. -/
theorem preorder_split :
    n.preorder = n.preorder.take place ++ .node d :: n.preorder.drop (place + 1) := by
  obtain ⟨hlt, hget⟩ := List.getElem?_eq_some_iff.1 hd
  rw [← hget, ← List.drop_eq_getElem_cons hlt, List.take_append_drop]

/-- A token that is met before a node ends before it, and one that is met after starts behind its
start. -/
theorem token_place {t : Token} :
    (.token t ∈ n.preorder.take place → t.span.stop ≤ d.start) ∧
    (.token t ∈ n.preorder.drop (place + 1) → d.start ≤ t.start) := by
  have hpairwise := n.inOrder_marks.pairwise
  rw [preorder_split hd, List.map_append, List.map_cons, List.pairwise_append,
    List.pairwise_cons] at hpairwise
  obtain ⟨-, ⟨hafter, -⟩, hbefore⟩ := hpairwise
  refine ⟨fun ht => ?_, fun ht => ?_⟩
  · exact hbefore t (List.mem_map.2 ⟨_, ht, rfl⟩) _ List.mem_cons_self
  · exact hafter t (List.mem_map.2 ⟨_, ht, rfl⟩)

end Node

namespace Options

variable (options : Options)

/-- The region that a token switches to if it is a marker that ends before a position. -/
def markerBefore? (position : Nat) (t : Token) : Option Region :=
  if t.span.stop ≤ position then (Item.token t).marker? options else none

/-- The region that the nearest marker before a position switches to, if there is a marker. -/
def nearestMarker? (n : Node) (position : Nat) : Option Region :=
  (n.tokens.filterMap (options.markerBefore? position)).getLast?

/-- The region behind items is that of the last marker among them. -/
theorem regionFrom_eq (region : Region) (items : List Item) :
    options.regionFrom region items =
      (items.filterMap (Item.marker? options)).getLast?.getD region := by
  induction items generalizing region with
  | nil => rfl
  | cons item rest ih =>
    rw [regionFrom, ih, List.filterMap_cons]
    cases hmarker : item.marker? options with
    | none => rfl
    | some switched => rw [List.getLast?_cons, Option.getD_some, Option.getD_some]

/-- A marker is not empty. -/
theorem utf8ByteSize_pos_of_marker {t : Token} {region : Region}
    (h : (Item.token t).marker? options = some region) : 0 < t.text.utf8ByteSize := by
  rw [Nat.pos_iff_ne_zero]
  intro hzero
  have hmarker : (if t.kind = .lineComment then options.marker? t.text else none) = some region := h
  rw [String.utf8ByteSize_eq_zero_iff.1 hzero] at hmarker
  split at hmarker
  · cases hmarker
  · cases hmarker

variable {options} {n d : Node} {place : Nat} (hd : n.preorder[place]? = some (.node d))

include hd

/-- The markers that are met before a node are those that end before it. -/
theorem filterMap_marker?_take :
    (n.preorder.take place).filterMap (Item.marker? options) =
      n.tokens.filterMap (options.markerBefore? d.start) := by
  have hbefore (item : Item) (hitem : item ∈ n.preorder.take place) :
      item.marker? options = item.token?.bind (options.markerBefore? d.start) := by
    cases item with
    | node m => rfl
    | token t =>
      have hstop := (Node.token_place hd).1 hitem
      exact (if_pos hstop).symm
  have hafter (item : Item) (hitem : item ∈ n.preorder.drop (place + 1)) :
      item.token?.bind (options.markerBefore? d.start) = none := by
    cases item with
    | node m => rfl
    | token t =>
      have hstart := (Node.token_place hd).2 hitem
      show options.markerBefore? d.start t = none
      unfold markerBefore?
      cases hmarker : (Item.token t).marker? options with
      | none => exact ite_self none
      | some region =>
        -- a marker has a text, so it cannot end where the node starts
        have hpos := options.utf8ByteSize_pos_of_marker hmarker
        have hstop : t.span.stop = t.start + t.text.utf8ByteSize := rfl
        exact if_neg (by omega)
  unfold Node.tokens
  rw [List.filterMap_filterMap]
  conv_rhs => rw [Node.preorder_split hd]
  rw [List.filterMap_append, List.filterMap_cons, List.filterMap_congr hbefore,
    List.filterMap_eq_nil_iff.2 hafter]
  exact (List.append_nil _).symm

/-- Where no marker stands between a node and a later position, the nearest marker before both is
the same. -/
theorem nearestMarker?_of_between {position : Nat} (hle : d.start ≤ position)
    (hbetween : ∀ t ∈ n.tokens, d.start ≤ t.start → t.span.stop ≤ position →
      (Item.token t).marker? options = none) :
    options.nearestMarker? n position = options.nearestMarker? n d.start := by
  unfold nearestMarker?
  congr 1
  apply List.filterMap_congr
  intro t ht
  obtain ⟨item, hitem, htoken⟩ := List.mem_filterMap.1 ht
  cases item with
  | node m => cases htoken
  | token u =>
    cases htoken
    rw [Node.preorder_split hd, List.mem_append, List.mem_cons] at hitem
    unfold markerBefore?
    rcases hitem with hbefore | hself | hafter
    · have hstop := (Node.token_place hd).1 hbefore
      rw [if_pos hstop, if_pos (Nat.le_trans hstop hle)]
    · cases hself
    · have hstart := (Node.token_place hd).2 hafter
      have hnone := hbetween t ht hstart
      split
      · next hstop => rw [hnone hstop, ite_self]
      · next hstop =>
        have hnot : ¬ t.span.stop ≤ d.start := fun hle' => hstop (Nat.le_trans hle' hle)
        rw [if_neg hnot]

end Options

/-- The name of a variable stands behind the start of the construct that declares it. -/
theorem Node.start_le_of_mem_variableNames {d : Node} {name : Token}
    (hname : name ∈ d.variableNames) : d.start ≤ name.start := by
  obtain ⟨hmem, -⟩ := Node.ident_below_of_mem_variableNames d.self_mem_descendants hname
  have htoken : name ∈ d.tokens := List.mem_filterMap.2 ⟨_, hmem, rfl⟩
  exact (d.inOrder_tokens.bounds name htoken).1

/-- In a walk that succeeds the variables of a construct draw consecutive indices from the counter
of one region, and the other counter stands still. This is the region of injected code exactly when
the nearest marker before the construct opens one. For a variable whose name no marker separates
from the start of the construct, this is the nearest marker before the name. What is declared place
by place is what the visits of the walk declare. -/
theorem walk_counts_in_region_of_construct (scope : Scope) (n : Node)
    (h : ((scope.walk n).run (.initial scope.options)).result = .ok ()) (place : Nat) (d : Node)
    (hd : n.preorder[place]? = some (.node d)) :
    let s := scope.stateAt n place
    scope.declarationsAt n place =
      scope.consecutiveRecords (s.locals.next s.region) d.variableNames ∧
    (∀ region, (scope.stateAt n (place + 1)).locals.next region =
      s.locals.next region + if s.region = region then d.variableNames.length else 0) ∧
    (s.region = .injected ↔ scope.options.nearestMarker? n d.start = some .injected) ∧
    (∀ name ∈ d.variableNames,
      (∀ t ∈ n.tokens, d.start ≤ t.start → t.span.stop ≤ name.start →
        (Item.token t).marker? scope.options = none) →
      (s.region = .injected ↔ scope.options.nearestMarker? n name.start = some .injected)) ∧
    (List.range n.preorder.length).flatMap (scope.declarationsAt n) =
      (scope.visits n.walkSteps).flatMap Visit.declarationRecords := by
  intro s
  have hregion : s.region = (scope.options.nearestMarker? n d.start).getD .normal := by
    unfold Options.nearestMarker?
    rw [Scope.region_stateAt h, Options.regionFrom_eq, Options.filterMap_marker?_take hd]
  have hinjected : s.region = .injected ↔
      scope.options.nearestMarker? n d.start = some .injected := by
    rw [hregion]
    cases scope.options.nearestMarker? n d.start <;> simp
  refine ⟨Scope.declarationsAt_eq h hd, Scope.next_stateAt_succ h hd, hinjected, ?_,
    Scope.flatMap_declarationsAt h⟩
  intro name hname hbetween
  have hle := Node.start_le_of_mem_variableNames hname
  rw [hinjected, Options.nearestMarker?_of_between hd hle hbetween]

/-- A for-each statement in injected code, which ends inside the body of the statement. -/
def markedLoop : Node :=
  ⟨⟨0⟩, 0, .codeBlock,
    [.token .lineComment "// tag start", .token .whitespace "\n",
      .node .foreachStatement
        [.node .parameter [.token .ident "x"],
          .node .codeBlock
            [.token .lineComment "// tag end", .token .whitespace "\n",
              .node .declarationStatement [.node .localVariable [.token .ident "y"]]]]]⟩

/-- The variable of the marked loop is counted in injected code, for the marker before it. -/
theorem walk_counts_in_region_of_construct_loop :
    let scope : Scope := ⟨.ofText "A.java" "" Bindings.empty.resolver {}, "A", ⟨"m", "()V"⟩⟩
    scope.options.nearestMarker? markedLoop 13 = some .injected ∧
    (scope.stateAt markedLoop 3).region = .injected ∧
    scope.declarationsAt markedLoop 3 = [scope.variableRecord ⟨13, .ident, "x"⟩ 100] := by
  intro scope
  have hok : ((scope.walk markedLoop).run (.initial scope.options)).result = .ok () := by
    decide +kernel
  have hmarker : scope.options.nearestMarker? markedLoop 13 = some .injected := by
    decide +kernel
  obtain ⟨hdeclared, -, hregion, -⟩ :=
    walk_counts_in_region_of_construct scope markedLoop hok 3 _ rfl
  refine ⟨hmarker, hregion.2 hmarker, hdeclared.trans ?_⟩
  rw [hregion.2 hmarker]
  decide +kernel

/-- A statement that declares three variables, the second of which stands between two markers. -/
def markedDeclarators : Node :=
  ⟨⟨0⟩, 0, .declarationStatement,
    [.node .localVariable
        [.node .type [.token .intKw "int"], .token .whitespace " ", .token .ident "a"],
      .token .comma ",", .token .whitespace " ", .token .lineComment "// patch start",
      .token .whitespace "\n", .node .localVariable [.token .ident "b"],
      .token .comma ",", .token .whitespace " ", .token .lineComment "// patch end",
      .token .whitespace "\n", .node .localVariable [.token .ident "c"],
      .token .semicolon ";"]⟩

/-- The nearest marker before `b` opens injected code, but `b` is counted in ordinary code like the
rest of its statement, and shifts the index of `c`. -/
theorem walk_ignores_markers_inside_statement :
    let scope : Scope := ⟨.ofText "A.java" "" Bindings.empty.resolver {}, "A", ⟨"m", "()V"⟩⟩
    ((scope.walk markedDeclarators).run (.initial scope.options)).result = .ok () ∧
    scope.options.nearestMarker? markedDeclarators 22 = some .injected ∧
    (scope.stateAt markedDeclarators 0).region = .normal ∧
    scope.declarationsAt markedDeclarators 0 =
      [scope.variableRecord ⟨4, .ident, "a"⟩ 0, scope.variableRecord ⟨22, .ident, "b"⟩ 1,
        scope.variableRecord ⟨38, .ident, "c"⟩ 2] := by
  decide +kernel

end SymbolRanges

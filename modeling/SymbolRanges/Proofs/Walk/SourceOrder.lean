import SymbolRanges.Proofs.Walk.Places
import SymbolRanges.Proofs.Walk.Regions

/-!
# Indices and source order

Variables of one region are numbered in the order in which the walk comes to the constructs that
declare them, and the variables of one construct from left to right. This is the order of their
names in the text but for one case: a variable that is declared inside the construct of another, in
front of its name, as in the initializer of an earlier variable of the same statement. The walk
comes to the outer construct first, so the inner variable has the larger index although it stands
before the outer one: `walk_numbers_in_source_order_unless_enclosed`.
-/

set_option autoImplicit false

namespace SymbolRanges

/-! ### The stretch of a node in a pre-order -/

namespace Element

mutual

/-- A node that stands at a place of a pre-order is followed there by everything below it. -/
theorem preorder_prefix_drop (tree : TreeId) (start : Nat) (e : Element) {place : Nat} {d : Node}
    (hd : (e.preorder tree start)[place]? = some (.node d)) :
    d.preorder <+: (e.preorder tree start).drop place := by
  cases e with
  | token kind text =>
    cases place with
    | zero => cases hd
    | succ place => cases hd
  | node kind children =>
    cases place with
    | zero =>
      cases hd
      exact List.prefix_rfl
    | succ place => exact preorderAll_prefix_drop tree start children hd

/-- A node that stands at a place of the pre-order of consecutive elements is followed there by
everything below it. -/
theorem preorderAll_prefix_drop (tree : TreeId) (start : Nat) (es : List Element) {place : Nat}
    {d : Node} (hd : (preorderAll tree start es)[place]? = some (.node d)) :
    d.preorder <+: (preorderAll tree start es).drop place := by
  cases es with
  | nil => cases hd
  | cons e rest =>
    rw [preorderAll] at hd ⊢
    -- the place is in the first element or among the others
    by_cases hplace : place < (e.preorder tree start).length
    · rw [List.getElem?_append_left hplace] at hd
      rw [List.drop_append_of_le_length (Nat.le_of_lt hplace)]
      exact (preorder_prefix_drop tree start e hd).trans (List.prefix_append _ _)
    · have hle : (e.preorder tree start).length ≤ place := Nat.le_of_not_lt hplace
      rw [List.getElem?_append_right hle] at hd
      rw [List.drop_append, List.drop_of_length_le hle, List.nil_append]
      exact preorderAll_prefix_drop tree (start + e.size) rest hd

end

end Element

namespace Node

variable {n d : Node} {place : Nat} (hd : n.preorder[place]? = some (.node d))

include hd

/-- A node below another one is followed in the pre-order of the latter by its own. -/
theorem preorder_isPrefix_drop : d.preorder <+: n.preorder.drop place :=
  Element.preorder_prefix_drop n.tree n.start (.node n.kind n.children) hd

/-- What stands a few places behind a node, but still below it, stands there in its own
pre-order. -/
theorem preorder_getElem?_add {offset : Nat} (h : offset < d.preorder.length) :
    n.preorder[place + offset]? = d.preorder[offset]? := by
  obtain ⟨after, hafter⟩ := preorder_isPrefix_drop hd
  rw [← List.getElem?_drop, ← hafter, List.getElem?_append_left h]

/-- A token below a node ends before each node that comes behind everything below that node. -/
theorem stop_le_of_behind {e : Node} {later : Nat} (he : n.preorder[later]? = some (.node e))
    (hlater : place + d.preorder.length ≤ later) {t : Token} (ht : Item.token t ∈ d.preorder) :
    t.span.stop ≤ e.start := by
  obtain ⟨offset, hoffset, hitem⟩ := List.getElem_of_mem ht
  have hplace : n.preorder[place + offset]? = some (.token t) := by
    rw [preorder_getElem?_add hd hoffset, List.getElem?_eq_getElem hoffset, hitem]
  refine (token_place he).1 (List.mem_of_getElem? (i := place + offset) ?_)
  rw [List.getElem?_take_of_lt (by omega), hplace]

end Node

/-! ### The names of one construct -/

namespace Node

/-- The tokens of a node are those of its items, in order. -/
theorem tokens_eq (n : Node) :
    n.tokens = n.items.flatMap fun item => item.preorder.filterMap Item.token? := by
  rw [tokens, preorder_eq, List.filterMap_cons, ← List.filterMap_flatMap]
  rfl

/-- The tokens right below a node are some of those below it, in the same order. -/
theorem childTokens_sublist_tokens (n : Node) : n.childTokens.Sublist n.tokens := by
  rw [tokens_eq, childTokens]
  induction n.items with
  | nil => exact List.Sublist.refl _
  | cons item rest ih =>
    cases item with
    | token t => exact ih.cons_cons t
    | node c => exact ih.trans (List.sublist_append_right _ _)

/-- The tokens below the children of a node are some of those below it, in the same order. -/
theorem flatMap_tokens_sublist_tokens (n : Node) :
    (n.childNodes.flatMap tokens).Sublist n.tokens := by
  rw [tokens_eq, childNodes]
  induction n.items with
  | nil => exact List.Sublist.refl _
  | cons item rest ih =>
    cases item with
    | token t => exact ih.trans (List.sublist_append_right _ _)
    | node c => exact ih.append_left _

/-- The names of the variables of a construct stand in its text from left to right. -/
theorem pairwise_variableNames (n : Node) :
    n.variableNames.Pairwise fun s t => s.span.stop ≤ t.span.start := by
  have hidentifiers : (n.childNodes.flatMap ownIdentifiers).Sublist (n.childNodes.flatMap tokens) :=
    List.Sublist.flatMap_right _ fun c _ => List.filter_sublist.trans c.childTokens_sublist_tokens
  exact n.inOrder_tokens.pairwise.sublist
    (n.variableNames_sublist.trans (hidentifiers.trans n.flatMap_tokens_sublist_tokens))

end Node

/-! ### Variables that a walk declares -/

/-- The counters of a walk that succeeds never go back. -/
theorem Scope.next_stateAt_mono {scope : Scope} {n : Node}
    (h : ((scope.walk n).run (.initial scope.options)).result = .ok ()) {place later : Nat}
    (hle : place ≤ later) (region : Region) :
    (scope.stateAt n place).locals.next region ≤ (scope.stateAt n later).locals.next region := by
  have hsplit : n.preorder.take later =
      n.preorder.take place ++ (n.preorder.drop place).take (later - place) := by
    rw [← List.take_add, Nat.add_sub_cancel' hle]
  rw [next_stateAt h, next_stateAt h, hsplit, Options.variablesFrom_append, List.countP_append]
  omega

/-- A variable of the code below a node, by its construct and its place among the names of the
construct. -/
structure VariableSite (n : Node) where
  /-- The place of the construct in the pre-order. -/
  place : Nat
  construct : Node
  rank : Nat
  name : Token
  construct_at : n.preorder[place]? = some (.node construct)
  name_at : construct.variableNames[rank]? = some name

namespace VariableSite

variable {n : Node} (scope : Scope) (v w : VariableSite n)

/-- The region that a walk is in when it comes to the construct of a variable. -/
def region : Region := (scope.stateAt n v.place).region

/-- The record of the declaration of a variable in a walk. -/
def record? : Option Record := (scope.declarationsAt n v.place)[v.rank]?

/-- The construct of one variable stands inside that of another: behind the other in the pre-order,
and among what is below it. -/
def EnclosedBy : Prop :=
  w.place < v.place ∧ w.construct.preorder[v.place - w.place]? = some (.node v.construct)

/-- The index that a walk has at hand for a variable. -/
def index : Nat := (scope.stateAt n v.place).locals.next (v.region scope) + v.rank

/-- The rank of a variable is that of a name of its construct. -/
theorem rank_lt : v.rank < v.construct.variableNames.length :=
  (List.getElem?_eq_some_iff.1 v.name_at).1

/-- The name of a variable is one that its construct declares. -/
theorem name_mem : v.name ∈ v.construct.variableNames := List.mem_of_getElem? v.name_at

/-- The construct of a variable that comes first, or within which the other does not stand, ends
before the name of the other. -/
theorem name_stop_le (hplace : w.place < v.place) (h : ¬ v.EnclosedBy w) :
    w.name.span.stop ≤ v.name.start := by
  have hbehind : w.place + w.construct.preorder.length ≤ v.place := by
    by_contra hlt
    have hoffset : v.place - w.place < w.construct.preorder.length := by omega
    have hitem := Node.preorder_getElem?_add w.construct_at hoffset
    rw [Nat.add_sub_cancel' (Nat.le_of_lt hplace), v.construct_at] at hitem
    exact h ⟨hplace, hitem.symm⟩
  have htoken : Item.token w.name ∈ w.construct.preorder :=
    (Node.ident_below_of_mem_variableNames w.construct.self_mem_descendants w.name_mem).1
  exact Nat.le_trans (Node.stop_le_of_behind w.construct_at v.construct_at hbehind htoken)
    (Node.start_le_of_mem_variableNames v.name_mem)

/-- Of two names of one construct the one that stands first in the text has the smaller rank. -/
theorem rank_lt_of_start_lt {v w : VariableSite n} (hplace : v.place = w.place)
    (hstart : v.name.start < w.name.start) : v.rank < w.rank := by
  have hconstruct : v.construct = w.construct := by
    have hitem := v.construct_at
    rw [hplace, w.construct_at] at hitem
    exact (Item.node.inj (Option.some.inj hitem)).symm
  obtain ⟨hv, hvname⟩ := List.getElem?_eq_some_iff.1 (hconstruct ▸ v.name_at)
  obtain ⟨hw, hwname⟩ := List.getElem?_eq_some_iff.1 w.name_at
  rcases Nat.lt_trichotomy v.rank w.rank with hlt | heq | hgt
  · exact hlt
  · have hsame : v.name = w.name := by
      rw [← hvname, ← hwname]
      congr 1
    rw [hsame] at hstart
    exact absurd hstart (Nat.lt_irrefl _)
  · have hstop := List.pairwise_iff_getElem.1 w.construct.pairwise_variableNames _ _ hw hv hgt
    rw [hvname, hwname] at hstop
    have hle : w.name.start ≤ w.name.span.stop := Nat.le_add_right _ _
    exact absurd hstart (Nat.not_lt.2 (Nat.le_trans hle hstop))

variable {scope} (h : ((scope.walk n).run (.initial scope.options)).result = .ok ())

include h

/-- The declaration of a variable is recorded with the index at hand. -/
theorem record?_eq : v.record? scope = some (scope.variableRecord v.name (v.index scope)) := by
  have hrecords := Scope.declarationsAt_eq h v.construct_at
  have hname : (Item.node v.construct).variableNames[v.rank]? = some v.name := v.name_at
  unfold record?
  rw [hrecords, Scope.consecutiveRecords, List.getElem?_map, List.getElem?_zipIdx, hname]
  simp [index, region]

/-- The record of a variable is among those that the visits of the walk declare. -/
theorem mem_declarationRecords {r : Record} (hr : v.record? scope = some r) :
    r ∈ (scope.visits n.walkSteps).flatMap Visit.declarationRecords := by
  rw [← Scope.flatMap_declarationsAt h, List.mem_flatMap]
  obtain ⟨hlt, -⟩ := List.getElem?_eq_some_iff.1 v.construct_at
  exact ⟨v.place, List.mem_range.2 hlt, List.mem_of_getElem? hr⟩

/-- The variables of a construct that comes first have smaller indices, in the same region. -/
theorem index_lt_of_place_lt {v w : VariableSite n} (hplace : v.place < w.place)
    (hregion : v.region scope = w.region scope) : v.index scope < w.index scope := by
  have hpast := Scope.next_stateAt_succ h v.construct_at (v.region scope)
  have hself : (scope.stateAt n v.place).region = v.region scope := rfl
  rw [if_pos hself] at hpast
  have hle : v.place + 1 ≤ w.place := hplace
  have hmono := Scope.next_stateAt_mono h hle (v.region scope)
  have hrank : v.rank < (Item.node v.construct).variableNames.length := v.rank_lt
  unfold index
  rw [← hregion]
  omega

end VariableSite

/-- Two variables of one region whose names stand one before the other in the text: in a walk that
succeeds the first has the smaller index, unless it is declared inside the construct of the second,
and then it has the larger one. The records of both are among those that the visits of the walk
declare. -/
theorem walk_numbers_in_source_order_unless_enclosed (scope : Scope) (n : Node)
    (h : ((scope.walk n).run (.initial scope.options)).result = .ok ()) (v w : VariableSite n)
    (hregion : v.region scope = w.region scope) (hbefore : v.name.start < w.name.start) :
    ∃ i j, v.record? scope = some (scope.variableRecord v.name i) ∧
      w.record? scope = some (scope.variableRecord w.name j) ∧
      (¬ v.EnclosedBy w → i < j) ∧ (v.EnclosedBy w → j < i) ∧
      scope.variableRecord v.name i ∈
        (scope.visits n.walkSteps).flatMap Visit.declarationRecords ∧
      scope.variableRecord w.name j ∈
        (scope.visits n.walkSteps).flatMap Visit.declarationRecords := by
  refine ⟨v.index scope, w.index scope, v.record?_eq h, w.record?_eq h, ?_, ?_,
    v.mem_declarationRecords h (v.record?_eq h), w.mem_declarationRecords h (w.record?_eq h)⟩
  · intro henclosed
    rcases Nat.lt_trichotomy v.place w.place with hlt | heq | hgt
    · exact VariableSite.index_lt_of_place_lt h hlt hregion
    · have hrank := VariableSite.rank_lt_of_start_lt heq hbefore
      unfold VariableSite.index
      rw [hregion, heq]
      omega
    · -- the second construct is left behind before the first variable is met
      have hstop := v.name_stop_le w hgt henclosed
      have hle : w.name.start ≤ w.name.span.stop := Nat.le_add_right _ _
      omega
  · intro henclosed
    exact VariableSite.index_lt_of_place_lt h henclosed.1 hregion.symm

/-- A statement that declares `b` inside a lambda expression. -/
def lambdaBody : Node :=
  ⟨⟨0⟩, 21, .declarationStatement,
    [.node .localVariable
        [.node .type [.token .intKw "int"], .token .whitespace " ", .token .ident "b"],
      .token .semicolon ";"]⟩

/-- The statement `Runnable a = () -> { int b; }, c;`. -/
def lambdaStatement : Node :=
  ⟨⟨0⟩, 0, .declarationStatement,
    [.node .localVariable
        [.node .type [.node .reference [.token .ident "Runnable"]], .token .whitespace " ",
          .token .ident "a", .token .whitespace " ", .token .equals "=", .token .whitespace " ",
          .node .lambda
            [.token .lParen "(", .token .rParen ")", .token .whitespace " ", .token .arrow "->",
              .token .whitespace " ",
              .node .codeBlock
                [.token .lBrace "\x7b", .token .whitespace " ",
                  .node lambdaBody.kind lambdaBody.children, .token .whitespace " ",
                  .token .rBrace "\x7d"]]],
      .token .comma ",", .token .whitespace " ", .node .localVariable [.token .ident "c"],
      .token .semicolon ";"]⟩

def lambdaStatement.a : VariableSite lambdaStatement :=
  ⟨0, lambdaStatement, 0, ⟨9, .ident, "a"⟩, rfl, rfl⟩

def lambdaStatement.b : VariableSite lambdaStatement :=
  ⟨19, lambdaBody, 0, ⟨25, .ident, "b"⟩, rfl, rfl⟩

def lambdaStatement.c : VariableSite lambdaStatement :=
  ⟨0, lambdaStatement, 1, ⟨31, .ident, "c"⟩, rfl, rfl⟩

/-- A stretch of code in which `Runnable` is known. -/
def lambdaScope : Scope :=
  let bindings := Bindings.empty.insertReference (.ofSize 0 8) (.classDecl "java.lang.Runnable")
  ⟨.ofText "A.java" "" bindings.resolver {}, "A", ⟨"m", "()V"⟩⟩

/-- Behind `a` in the text, `b` has the larger index of the two; before `c`, it has the larger one
too. -/
theorem walk_numbers_in_source_order_unless_enclosed_lambda :
    (∃ i j, lambdaStatement.a.record? lambdaScope =
        some (lambdaScope.variableRecord lambdaStatement.a.name i) ∧
      lambdaStatement.b.record? lambdaScope =
        some (lambdaScope.variableRecord lambdaStatement.b.name j) ∧ i < j) ∧
    ∃ i j, lambdaStatement.b.record? lambdaScope =
        some (lambdaScope.variableRecord lambdaStatement.b.name i) ∧
      lambdaStatement.c.record? lambdaScope =
        some (lambdaScope.variableRecord lambdaStatement.c.name j) ∧ j < i := by
  have hok : ((lambdaScope.walk lambdaStatement).run (.initial lambdaScope.options)).result =
      .ok () := by
    decide +kernel
  have hinside : lambdaStatement.b.EnclosedBy lambdaStatement.c := ⟨by decide, rfl⟩
  have houtside : ¬ lambdaStatement.a.EnclosedBy lambdaStatement.b := fun h =>
    absurd h.1 (by decide)
  constructor
  · obtain ⟨i, j, ha, hb, hlt, -⟩ := walk_numbers_in_source_order_unless_enclosed lambdaScope
      lambdaStatement hok lambdaStatement.a lambdaStatement.b (by decide +kernel) (by decide)
    exact ⟨i, j, ha, hb, hlt houtside⟩
  · obtain ⟨i, j, hb, hc, -, hgt, -⟩ := walk_numbers_in_source_order_unless_enclosed lambdaScope
      lambdaStatement hok lambdaStatement.b lambdaStatement.c (by decide +kernel) (by decide)
    exact ⟨i, j, hb, hc, hgt hinside⟩

/-- All three variables stand in ordinary code, and `b` before `c`, but `b` is numbered last. -/
theorem walk_numbers_enclosed_variable_last :
    ((lambdaScope.walk lambdaStatement).run (.initial lambdaScope.options)).result = .ok () ∧
    lambdaStatement.b.region lambdaScope = .normal ∧
    lambdaStatement.c.region lambdaScope = .normal ∧
    lambdaStatement.b.name.start < lambdaStatement.c.name.start ∧
    lambdaStatement.b.record? lambdaScope =
      some (lambdaScope.variableRecord lambdaStatement.b.name 2) ∧
    lambdaStatement.c.record? lambdaScope =
      some (lambdaScope.variableRecord lambdaStatement.c.name 1) := by
  decide +kernel

end SymbolRanges

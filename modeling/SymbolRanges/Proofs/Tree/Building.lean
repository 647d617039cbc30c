import Mathlib.Data.List.Induction
import Mathlib.Data.List.Infix
import SymbolRanges.Tree.Builder
import SymbolRanges.Proofs.Text.Offset
import SymbolRanges.Proofs.Tree.Text
import SymbolRanges.Proofs.Tree.Tokens

/-!
# What a builder builds

A builder counts bytes while it takes tokens, and knows nothing of the tree that they end up in.
`Builder.holds_run` says that both agree after every sequence of steps, balanced or not: what is
finished so far has the tokens taken so far, each at the place that was counted for it.
`FlatBuilder` keeps everything finished in one list and a stack of places in it, and `flatten_run?`
says that a builder goes the same way. `exists_tree_of_balanced` is about sequences that close what
they open.
-/

set_option autoImplicit false

namespace SymbolRanges

/-! ### Steps -/

namespace BuildStep

/-- The kind and text of the token that a step takes, if it takes one. -/
def token? : BuildStep → Option (Kind × String)
  | startNode _ | endNode => none
  | token kind text => some (kind, text)
  | ident name => some (.ident, name)
  | space => some (.whitespace, " ")
  | lineFeed => some (.whitespace, "\n")

/-- Whether a step opens a node. -/
def isStart : BuildStep → Bool
  | startNode _ => true
  | _ => false

/-- Whether a step closes a node. -/
def isEnd : BuildStep → Bool
  | endNode => true
  | _ => false

/-- The kinds and texts of the tokens that steps take, in order. -/
def taken (steps : List BuildStep) : List (Kind × String) := steps.filterMap token?

/-- The text that steps take. -/
def text (steps : List BuildStep) : String := String.join ((taken steps).map Prod.snd)

/-- The number of nodes that steps open. -/
def starts (steps : List BuildStep) : Nat := steps.countP isStart

/-- The number of nodes that steps close. -/
def ends (steps : List BuildStep) : Nat := steps.countP isEnd

/-- A step opens a node, closes one, or takes a token. -/
theorem eq_startNode_or_eq_endNode_or_token? (step : BuildStep) :
    (∃ kind, step = startNode kind) ∨ step = endNode ∨
      ∃ kind text, step.token? = some (kind, text) ∧ step.isStart = false ∧ step.isEnd = false := by
  cases step with
  | startNode kind => exact .inl ⟨kind, rfl⟩
  | endNode => exact .inr (.inl rfl)
  | token kind text => exact .inr (.inr ⟨kind, text, rfl, rfl, rfl⟩)
  | ident name => exact .inr (.inr ⟨_, name, rfl, rfl, rfl⟩)
  | space => exact .inr (.inr ⟨_, _, rfl, rfl, rfl⟩)
  | lineFeed => exact .inr (.inr ⟨_, _, rfl, rfl, rfl⟩)

/-- A step at the end adds its token to those taken. -/
theorem taken_concat (steps : List BuildStep) (step : BuildStep) :
    taken (steps ++ [step]) = taken steps ++ step.token?.toList := by
  rw [taken, List.filterMap_append]
  cases step <;> rfl

/-- A step at the end counts as an opening one if it is one. -/
theorem starts_concat (steps : List BuildStep) (step : BuildStep) :
    starts (steps ++ [step]) = starts steps + step.isStart.toNat := by
  rw [starts, List.countP_append, List.countP_singleton]
  cases step <;> rfl

/-- A step at the end counts as a closing one if it is one. -/
theorem ends_concat (steps : List BuildStep) (step : BuildStep) :
    ends (steps ++ [step]) = ends steps + step.isEnd.toNat := by
  rw [ends, List.countP_append, List.countP_singleton]
  cases step <;> rfl

/-- A step at the end adds the text of its token. -/
theorem text_concat (steps : List BuildStep) (step : BuildStep) :
    text (steps ++ [step]) = text steps ++ String.join (step.token?.toList.map Prod.snd) := by
  rw [text, taken_concat, List.map_append, String.join_append]
  rfl

/-- Opening a node first adds no text. -/
theorem text_startNode_cons (kind : Kind) (steps : List BuildStep) :
    text (startNode kind :: steps) = text steps := rfl

/-- Steps take no more bytes than those that follow them in addition. -/
theorem size_text_le {before steps : List BuildStep} (h : before <+: steps) :
    (text before).utf8ByteSize ≤ (text steps).utf8ByteSize := by
  obtain ⟨after, rfl⟩ := h
  rw [text, text, taken, taken, List.filterMap_append, List.map_append, String.join_append,
    String.utf8ByteSize_append]
  exact Nat.le_add_right _ _

/-- Steps that close every node that they open, and no other. -/
structure Balanced (steps : List BuildStep) : Prop where
  ends_le : ∀ before, before <+: steps → ends before ≤ starts before
  ends_eq : ends steps = starts steps

/-- Steps are balanced if no more is closed than opened after any of them, and as much in the end.
-/
theorem balanced_iff (steps : List BuildStep) :
    Balanced steps ↔
      (∀ before ∈ steps.inits, ends before ≤ starts before) ∧ ends steps = starts steps := by
  constructor
  · intro h
    exact ⟨fun before hbefore => h.ends_le before ((List.mem_inits _ _).1 hbefore), h.ends_eq⟩
  · rintro ⟨hle, heq⟩
    exact ⟨fun before hbefore => hle before ((List.mem_inits _ _).2 hbefore), heq⟩

instance : DecidablePred Balanced := fun steps => decidable_of_iff _ (balanced_iff steps).symm

end BuildStep

/-- Tokens one behind the other, the first of which starts at a given position. -/
def Token.lineUp : Nat → List (Kind × String) → List Token
  | _, [] => []
  | start, (kind, text) :: rest =>
    ⟨start, kind, text⟩ :: lineUp (start + text.utf8ByteSize) rest

/-- Tokens line up behind those before them. -/
theorem Token.lineUp_append (start : Nat) (xs ys : List (Kind × String)) :
    lineUp start (xs ++ ys) =
      lineUp start xs ++ lineUp (start + (String.join (xs.map Prod.snd)).utf8ByteSize) ys := by
  induction xs generalizing start with
  | nil => simp [lineUp]
  | cons x rest ih => simp [lineUp, ih, Nat.add_assoc]

/-- Tokens that line up keep their kinds and texts. -/
theorem Token.map_lineUp (start : Nat) (xs : List (Kind × String)) :
    ((lineUp start xs).map fun t => (t.kind, t.text)) = xs := by
  induction xs generalizing start with
  | nil => rfl
  | cons x rest ih => rw [lineUp, List.map_cons, ih]

/-! ### Tokens of finished elements -/

namespace Element

/-- The tokens below consecutive elements, in their places. -/
def tokensAll (tree : TreeId) (start : Nat) (es : List Element) : List Token :=
  (preorderAll tree start es).filterMap Item.token?

/-- The tokens of consecutive elements start where those before them end. -/
theorem tokensAll_append (tree : TreeId) (start : Nat) (xs ys : List Element) :
    tokensAll tree start (xs ++ ys) =
      tokensAll tree start xs ++ tokensAll tree (start + sizeAll xs) ys := by
  rw [tokensAll, preorderAll_append, List.filterMap_append]
  rfl

/-- Gathering elements in a node leaves their tokens where they are. -/
theorem tokensAll_node (tree : TreeId) (start : Nat) (kind : Kind) (es : List Element) :
    tokensAll tree start [.node kind es] = tokensAll tree start es := by
  rw [tokensAll, preorderAll, preorderAll, List.append_nil]
  rfl

/-- Gathering elements in a node keeps their size. -/
theorem sizeAll_node (kind : Kind) (es : List Element) : sizeAll [.node kind es] = sizeAll es := by
  simp [sizeAll, size]

mutual

/-- The tokens below an element have its texts. -/
theorem map_text_preorder (tree : TreeId) (start : Nat) (e : Element) :
    ((e.preorder tree start).filterMap Item.token?).map Token.text = e.tokenTexts := by
  cases e with
  | token kind text => rfl
  | node kind children => exact map_text_tokensAll tree start children

/-- The tokens below consecutive elements have their texts. -/
theorem map_text_tokensAll (tree : TreeId) (start : Nat) (es : List Element) :
    (tokensAll tree start es).map Token.text = tokenTextsAll es := by
  cases es with
  | nil => rfl
  | cons e rest =>
    have hrest := map_text_tokensAll tree (start + e.size) rest
    rw [tokensAll, preorderAll, List.filterMap_append, List.map_append, map_text_preorder,
      tokenTextsAll, ← hrest]
    rfl

end

end Element

/-- The text of a node is that of its tokens. -/
theorem Node.text_eq_join_tokens (n : Node) : n.text = String.join (n.tokens.map Token.text) := by
  rw [text, ← Element.map_text_tokensAll n.tree n.start]
  rfl

/-! ### What a builder holds -/

namespace Builder

open BuildStep Element

variable (b : Builder)

/-- Opening a node finishes nothing. -/
theorem allFinished_openNode (kind : Kind) : (b.openNode kind).allFinished = b.allFinished := by
  simp [allFinished, openNode]

/-- A step that takes a token succeeds exactly when the bytes taken then still fit in a word, and
puts the token behind what was finished. -/
theorem step?_of_token? {step : BuildStep} {kind : Kind} {text : String}
    (h : step.token? = some (kind, text)) :
    b.step? step =
      if b.offset + text.utf8ByteSize < Word.limit then
        some ⟨b.opened, .token kind text :: b.finished, b.offset + text.utf8ByteSize⟩
      else none := by
  have hpush : b.step? step = b.pushToken? kind text := by
    cases step <;> cases h <;> rfl
  rw [hpush, pushToken?, Word.add?]
  split <;> rfl

/-- What is finished after a token was taken ends in this token. -/
theorem allFinished_push (kind : Kind) (text : String) (offset : Nat) :
    allFinished ⟨b.opened, .token kind text :: b.finished, offset⟩ =
      b.allFinished ++ [.token kind text] := by
  simp [allFinished]

/-- Closing a node gathers what was finished last in it. -/
theorem allFinished_closeNode {b b' : Builder} (h : b.closeNode? = some b') :
    ∃ kind before inside, b.allFinished = before ++ inside ∧
      b'.allFinished = before ++ [.node kind inside] ∧ b'.offset = b.offset ∧
      b.depth = b'.depth + 1 := by
  obtain ⟨opened, finished, offset⟩ := b
  cases opened with
  | nil => cases h
  | cons innermost outer =>
    obtain rfl := Option.some.inj h
    refine ⟨innermost.kind, _, finished.reverse, rfl, ?_, rfl, rfl⟩
    simp [allFinished]

/-- A step at the end is taken from where the others lead. -/
theorem run?_concat (steps : List BuildStep) (step : BuildStep) :
    b.run? (steps ++ [step]) = (b.run? steps).bind fun b' => b'.step? step := by
  unfold run?
  rw [List.foldlM_append]
  refine congrArg (Option.bind _) ?_
  funext b'
  simp

/-- What a builder holds once it has taken steps: it has counted their bytes in a word, what is
finished has their tokens at the places counted, and what they open is closed or still open. -/
structure Holds (id : TreeId) (steps : List BuildStep) (b : Builder) : Prop where
  offset_eq : b.offset = (text steps).utf8ByteSize
  offset_lt : b.offset < Word.limit
  size_eq : sizeAll b.allFinished = b.offset
  tokens_eq : tokensAll id 0 b.allFinished = Token.lineUp 0 (taken steps)
  depth_eq : b.depth + ends steps = starts steps

/-- The account holds before the first step. -/
theorem holds_empty (id : TreeId) : Holds id [] empty := ⟨rfl, by decide, rfl, rfl, rfl⟩

variable {b} {id : TreeId} {steps : List BuildStep}

/-- The account holds after a step that succeeds. -/
theorem Holds.step (h : Holds id steps b) {step : BuildStep} {b' : Builder}
    (hstep : b.step? step = some b') : Holds id (steps ++ [step]) b' := by
  obtain ⟨hoffset, hlt, hsize, htokens, hdepth⟩ := h
  -- a token adds to all accounts, while opening and closing only move what is finished
  rcases step.eq_startNode_or_eq_endNode_or_token? with
    ⟨kind, rfl⟩ | rfl | ⟨kind, word, htoken, hstart, hend⟩
  · obtain rfl := Option.some.inj hstep
    have htaken : taken (steps ++ [.startNode kind]) = taken steps :=
      (taken_concat _ _).trans (List.append_nil _)
    refine ⟨?_, hlt, ?_, ?_, ?_⟩
    · rw [text, htaken]
      exact hoffset
    · rw [allFinished_openNode]
      exact hsize
    · rw [allFinished_openNode, htaken]
      exact htokens
    · rw [starts_concat, ends_concat]
      show b.depth + 1 + (ends steps + 0) = starts steps + 1
      omega
  · obtain ⟨kind, before, inside, hbefore, hafter, hsame, hopen⟩ := allFinished_closeNode hstep
    have htaken : taken (steps ++ [.endNode]) = taken steps :=
      (taken_concat _ _).trans (List.append_nil _)
    refine ⟨?_, hsame ▸ hlt, ?_, ?_, ?_⟩
    · rw [text, htaken, hsame]
      exact hoffset
    · rw [hafter, hsame, ← hsize, hbefore, sizeAll_append, sizeAll_append, sizeAll_node]
    · rw [hafter, htaken, ← htokens, hbefore, tokensAll_append, tokensAll_append, tokensAll_node]
    · rw [starts_concat, ends_concat]
      show b'.depth + (ends steps + 1) = starts steps + 0
      omega
  · rw [b.step?_of_token? htoken] at hstep
    split at hstep
    · next hfits =>
      obtain rfl := Option.some.inj hstep
      refine ⟨?_, hfits, ?_, ?_, ?_⟩
      · simp [text_concat, htoken, hoffset]
      · rw [allFinished_push, sizeAll_append, hsize]
        simp [sizeAll, size]
      · rw [allFinished_push, taken_concat, htoken, tokensAll_append, Token.lineUp_append, htokens,
          hsize, hoffset]
        rfl
      · rw [starts_concat, ends_concat, hstart, hend]
        exact hdepth
    · cases hstep

/-- The account holds after every sequence of steps that succeed. -/
theorem holds_run (id : TreeId) (h : empty.run? steps = some b) : Holds id steps b := by
  induction steps using List.reverseRecOn generalizing b with
  | nil =>
    obtain rfl := Option.some.inj h
    exact holds_empty id
  | append_singleton steps step ih =>
    rw [run?_concat] at h
    obtain ⟨before, hbefore, hstep⟩ := Option.bind_eq_some_iff.1 h
    exact (ih hbefore).step hstep

/-- Steps that succeed lead somewhere before each of them. -/
theorem exists_run?_before {before after : List BuildStep} {b' : Builder}
    (h : b.run? (before ++ after) = some b') : ∃ middle, b.run? before = some middle := by
  rw [run?, List.foldlM_append] at h
  obtain ⟨middle, hmiddle, -⟩ := Option.bind_eq_some_iff.1 h
  exact ⟨middle, hmiddle⟩

/-! ### Finished trees -/

/-- A finished tree has the tokens taken, one behind the other. -/
theorem tokens_of_finish? {tree : Tree} (h : empty.run? steps = some b)
    (hfinish : b.finish? id = some tree) :
    tree.root.tokens = Token.lineUp 0 (taken steps) := by
  have hfinished : tree.id = id ∧ b.allFinished = [.node tree.kind tree.children] := by
    unfold finish? at hfinish
    split at hfinish
    · next kind children hall =>
      obtain rfl := Option.some.inj hfinish
      exact ⟨rfl, hall⟩
    · cases hfinish
  rw [← (holds_run id h).tokens_eq, hfinished.2, tokensAll_node, ← hfinished.1]
  rfl

/-- A token of the finished tree is where the builder was when it was taken. -/
theorem getElem?_tokens_of_finish? {tree : Tree} {before after : List BuildStep} {step : BuildStep}
    {kind : Kind} {word : String} (h : empty.run? (before ++ step :: after) = some b)
    (hfinish : b.finish? id = some tree) (htoken : step.token? = some (kind, word)) :
    ∃ middle, empty.run? before = some middle ∧
      tree.root.tokens[(taken before).length]? = some ⟨middle.offset, kind, word⟩ := by
  obtain ⟨middle, hmiddle⟩ := exists_run?_before h
  refine ⟨middle, hmiddle, ?_⟩
  have htaken : taken (before ++ step :: after) = taken before ++ (kind, word) :: taken after := by
    rw [taken, List.filterMap_append, List.filterMap_cons, htoken]
    rfl
  have hlength : (taken before).length = (Token.lineUp 0 (taken before)).length := by
    rw [← List.length_map (f := fun t : Token => (t.kind, t.text)), Token.map_lineUp]
  rw [tokens_of_finish? h hfinish, htaken, Token.lineUp_append, Nat.zero_add, ← text,
    ← (holds_run id hmiddle).offset_eq, hlength, List.getElem?_append_right (Nat.le_refl _),
    Nat.sub_self]
  rfl

/-- The steps of a tree take no more bytes than a word can count. -/
theorem size_text_lt_of_ofSteps? {tree : Tree} (h : Tree.ofSteps? id steps = some tree) :
    (text steps).utf8ByteSize < Word.limit := by
  obtain ⟨b, hb, -⟩ := Option.bind_eq_some_iff.1 h
  have hholds := holds_run id hb
  rw [← hholds.offset_eq]
  exact hholds.offset_lt

/-! ### Balanced steps -/

/-- Steps that never close more than they open, and whose bytes a word can count, run inside a node,
which stays open beneath theirs. -/
theorem exists_run?_of_ends_le (id : TreeId) (kind : Kind) {inner : List BuildStep}
    (h : ∀ before, before <+: inner → ends before ≤ starts before)
    (hfits : (text inner).utf8ByteSize < Word.limit) :
    ∃ b frames, empty.run? (.startNode kind :: inner) = some b ∧
      b.opened = frames ++ [⟨kind, []⟩] ∧ frames.length + ends inner = starts inner := by
  induction inner using List.reverseRecOn with
  | nil => exact ⟨_, [], rfl, rfl, rfl⟩
  | append_singleton inner step ih =>
    have hinner : inner <+: inner ++ [step] := List.prefix_append _ _
    obtain ⟨b, frames, hrun, hopened, hcount⟩ :=
      ih (fun before hbefore => h before (hbefore.trans hinner))
        (Nat.lt_of_le_of_lt (size_text_le hinner) hfits)
    have hle := h (inner ++ [step]) (List.prefix_refl _)
    have hoffset := (holds_run id hrun).offset_eq
    rw [starts_concat, ends_concat] at hle
    rw [text_startNode_cons] at hoffset
    rw [← List.cons_append, run?_concat, hrun, Option.bind_some, starts_concat, ends_concat]
    rcases step.eq_startNode_or_eq_endNode_or_token? with
      ⟨inside, rfl⟩ | rfl | ⟨inside, word, htoken, hstart, hend⟩
    · refine ⟨_, ⟨inside, b.finished⟩ :: frames, rfl, ?_, ?_⟩
      · rw [openNode, hopened, List.cons_append]
      · show frames.length + 1 + (ends inner + 0) = starts inner + 1
        omega
    · have hopen : ends inner + 1 ≤ starts inner := hle
      -- so the innermost open node is not the one that all steps are inside of
      cases frames with
      | nil =>
        rw [List.length_nil] at hcount
        omega
      | cons innermost outer =>
        rw [List.length_cons] at hcount
        refine ⟨⟨outer ++ [⟨kind, []⟩], .node innermost.kind b.finished.reverse ::
          innermost.before, b.offset⟩, outer, ?_, rfl, ?_⟩
        · rw [step?, closeNode?, hopened]
          rfl
        · show outer.length + (ends inner + 1) = starts inner + 0
          omega
    · have hsum : b.offset + word.utf8ByteSize < Word.limit := by
        simpa [hoffset, text_concat, htoken] using hfits
      rw [b.step?_of_token? htoken, if_pos hsum, hstart, hend]
      exact ⟨_, frames, rfl, hopened, hcount⟩

/-- Steps that open one node, close what they open inside it and close it last build a tree, as long
as a word can count their bytes. -/
theorem exists_tree_of_balanced (id : TreeId) (kind : Kind) {inner : List BuildStep}
    (h : Balanced inner) (hfits : (text inner).utf8ByteSize < Word.limit) :
    ∃ tree, Tree.ofSteps? id (.startNode kind :: inner ++ [.endNode]) = some tree ∧
      tree.kind = kind := by
  obtain ⟨b, frames, hrun, hopened, hcount⟩ := exists_run?_of_ends_le id kind h.ends_le hfits
  have hclosed : frames = [] := by
    have htotal := h.ends_eq
    exact List.eq_nil_of_length_eq_zero (by omega)
  rw [hclosed, List.nil_append] at hopened
  refine ⟨⟨id, kind, b.finished.reverse⟩, ?_, rfl⟩
  rw [Tree.ofSteps?, run?_concat, hrun, Option.bind_some, step?, closeNode?, hopened]
  rfl

end Builder

/-! ### One list for everything -/

/-- A tree under construction that keeps what is finished in one list. -/
structure FlatBuilder where
  /-- Everything finished at any depth, from left to right. -/
  finished : List Element
  /-- The kinds of the open nodes, innermost first, each with the number of elements that were
  finished when it was opened. -/
  opened : List (Kind × Nat)
  offset : Nat
  depth : Nat

namespace FlatBuilder

/-- The builder that has taken nothing. -/
def empty : FlatBuilder := ⟨[], [], 0, 0⟩

/-- Takes a token, if the bytes taken with it still fit in a word. -/
def pushToken? (f : FlatBuilder) (kind : Kind) (text : String) : Option FlatBuilder := do
  let offset ← Word.add? f.offset text.utf8ByteSize
  some { f with finished := f.finished ++ [.token kind text], offset := offset }

/-- Takes one step. Closing a node gathers everything from its place in the list on, and fails when
no node is open. -/
def step? (f : FlatBuilder) : BuildStep → Option FlatBuilder
  | .startNode kind =>
    some { f with opened := (kind, f.finished.length) :: f.opened, depth := f.depth + 1 }
  | .endNode =>
    match f.opened with
    | [] => none
    | (kind, first) :: outer =>
      some { f with
        finished := f.finished.take first ++ [.node kind (f.finished.drop first)]
        opened := outer
        depth := f.depth - 1 }
  | .token kind text => f.pushToken? kind text
  | .ident name => f.pushToken? .ident name
  | .space => f.pushToken? .whitespace " "
  | .lineFeed => f.pushToken? .whitespace "\n"

/-- The builder after a sequence of steps, if all of them succeed. -/
def run? (f : FlatBuilder) (steps : List BuildStep) : Option FlatBuilder := steps.foldlM step? f

/-- The tree, if exactly one element is finished and it is a node. -/
def finish? (f : FlatBuilder) (id : TreeId) : Option Tree :=
  match f.finished with
  | [.node kind children] => some ⟨id, kind, children⟩
  | _ => none

end FlatBuilder

namespace Builder

/-- What was finished before the innermost of some open nodes, from left to right. -/
def finishedBefore (opened : List OpenNode) : List Element :=
  opened.reverse.flatMap fun frame => frame.before.reverse

/-- The open nodes with their places in the list of everything finished. -/
def places : List OpenNode → List (Kind × Nat)
  | [] => []
  | innermost :: outer =>
    (innermost.kind, (finishedBefore (innermost :: outer)).length) :: places outer

/-- A builder with everything finished in one list. -/
def flatten (b : Builder) : FlatBuilder := ⟨b.allFinished, places b.opened, b.offset, b.depth⟩

/-- What was finished before an open node lies behind what was finished before those around it. -/
theorem finishedBefore_cons (innermost : OpenNode) (outer : List OpenNode) :
    finishedBefore (innermost :: outer) = finishedBefore outer ++ innermost.before.reverse := by
  simp [finishedBefore]

/-- Taking a token does the same on one list as on the lists of the open nodes. -/
theorem flatten_pushToken? (b : Builder) (kind : Kind) (text : String) :
    b.flatten.pushToken? kind text = (b.pushToken? kind text).map flatten := by
  unfold FlatBuilder.pushToken? pushToken?
  show (Word.add? b.offset text.utf8ByteSize).bind _ =
    ((Word.add? b.offset text.utf8ByteSize).bind _).map flatten
  cases Word.add? b.offset text.utf8ByteSize with
  | none => rfl
  | some offset =>
    rw [Option.bind_some, Option.bind_some, Option.map_some, flatten, flatten, allFinished_push]
    rfl

/-- A step on one list does what it does on the lists of the open nodes. -/
theorem flatten_step? (b : Builder) (step : BuildStep) :
    b.flatten.step? step = (b.step? step).map flatten := by
  cases step with
  | startNode kind =>
    have hplaces : places (b.openNode kind).opened =
        (kind, b.allFinished.length) :: places b.opened := by
      rw [openNode, places, finishedBefore_cons]
      rfl
    rw [step?, Option.map_some, flatten, flatten, allFinished_openNode, hplaces]
    rfl
  | token kind text => exact b.flatten_pushToken? kind text
  | ident name => exact b.flatten_pushToken? .ident name
  | space => exact b.flatten_pushToken? .whitespace " "
  | lineFeed => exact b.flatten_pushToken? .whitespace "\n"
  | endNode =>
    obtain ⟨opened, finished, offset⟩ := b
    cases opened with
    | nil => rfl
    | cons innermost outer =>
      have hfinished : (⟨innermost :: outer, finished, offset⟩ : Builder).allFinished =
          finishedBefore (innermost :: outer) ++ finished.reverse := rfl
      rw [step?, closeNode?, Option.map_some, flatten, flatten, hfinished, places,
        FlatBuilder.step?]
      dsimp only
      rw [List.take_left, List.drop_left, finishedBefore_cons]
      simp [allFinished, finishedBefore, depth]

/-- All steps on one list do what they do on the lists of the open nodes. -/
theorem flatten_run? (b : Builder) (steps : List BuildStep) :
    b.flatten.run? steps = (b.run? steps).map flatten := by
  induction steps generalizing b with
  | nil => rfl
  | cons step rest ih =>
    rw [FlatBuilder.run?, run?, List.foldlM_cons, List.foldlM_cons, flatten_step?]
    cases hstep : b.step? step with
    | none => rfl
    | some next => exact ih next

end Builder

/-- The spans that a builder returns are those of the tree that it builds. For every sequence of
steps, balanced or not, the builder goes as one that keeps everything finished in a single list.
As long as the steps succeed, it has counted the bytes taken, and its depth is the number of nodes
opened and not closed. If a tree comes of it, its text is that of the tokens taken, and its tokens
are those taken; a step that returns a span returns the one of its token in the tree. Steps that
open one node, close what they open inside it and close it last build a tree exactly if they take
fewer bytes than fit in a word. -/
theorem ofSteps?_lossless (id : TreeId) (steps : List BuildStep) :
    FlatBuilder.empty.run? steps = (Builder.empty.run? steps).map Builder.flatten ∧
    (FlatBuilder.empty.run? steps).bind (fun f => f.finish? id) = Tree.ofSteps? id steps ∧
    (∀ b, Builder.empty.run? steps = some b →
      b.offset = (BuildStep.text steps).utf8ByteSize ∧
      b.depth = BuildStep.starts steps - BuildStep.ends steps ∧
      BuildStep.ends steps ≤ BuildStep.starts steps) ∧
    (∀ tree, Tree.ofSteps? id steps = some tree →
      tree.root.text = BuildStep.text steps ∧
      tree.root.tokens.length = (BuildStep.taken steps).length ∧
      tree.root.tokens.map (fun t => (t.kind, t.text)) = BuildStep.taken steps ∧
      ∀ before step after, steps = before ++ step :: after → ∀ kind text,
        step = .token kind text ∨ kind = .ident ∧ step = .ident text →
        ∃ b t, Builder.empty.run? before = some b ∧
          tree.root.tokens[(BuildStep.taken before).length]? = some t ∧
          t.kind = kind ∧ t.text = text ∧ b.returned? step = some t.span) ∧
    ∀ kind inner, steps = .startNode kind :: inner ++ [.endNode] → BuildStep.Balanced inner →
      ((∃ tree, Tree.ofSteps? id steps = some tree ∧ tree.kind = kind) ↔
        (BuildStep.text steps).utf8ByteSize < Word.limit) := by
  have hflat : FlatBuilder.empty.run? steps = (Builder.empty.run? steps).map Builder.flatten :=
    Builder.empty.flatten_run? steps
  refine ⟨hflat, ?_, ?_, ?_, ?_⟩
  · rw [hflat, Tree.ofSteps?, Option.bind_map]
    rfl
  · intro b hb
    have hholds := Builder.holds_run id hb
    have hdepth := hholds.depth_eq
    exact ⟨hholds.offset_eq, by omega, by omega⟩
  · intro tree htree
    obtain ⟨b, hb, hfinish⟩ := Option.bind_eq_some_iff.1 htree
    have htokens := Builder.tokens_of_finish? hb hfinish
    -- tokens line up, so that the text, their number and their spans follow from what was taken
    have hpairs : tree.root.tokens.map (fun t => (t.kind, t.text)) = BuildStep.taken steps := by
      rw [htokens, Token.map_lineUp]
    refine ⟨?_, ?_, hpairs, ?_⟩
    · rw [Node.text_eq_join_tokens, BuildStep.text, ← hpairs, List.map_map]
      rfl
    · rw [← hpairs, List.length_map]
    · rintro before step after rfl kind text hstep
      have htoken : step.token? = some (kind, text) := by
        rcases hstep with rfl | ⟨rfl, rfl⟩ <;> rfl
      obtain ⟨middle, hmiddle, htaken⟩ := Builder.getElem?_tokens_of_finish? hb hfinish htoken
      refine ⟨middle, _, hmiddle, htaken, rfl, rfl, ?_⟩
      rcases hstep with rfl | ⟨rfl, rfl⟩ <;> rfl
  · rintro kind inner rfl hinner
    constructor
    · rintro ⟨tree, htree, -⟩
      exact Builder.size_text_lt_of_ofSteps? htree
    · intro hfits
      -- opening and closing the root takes no bytes
      have hinside : BuildStep.text inner =
          BuildStep.text (.startNode kind :: inner ++ [.endNode]) := by
        rw [BuildStep.text_concat]
        exact (String.append_empty).symm
      exact Builder.exists_tree_of_balanced id kind hinner (hinside ▸ hfits)

/-- Two comments of a given number of blanks each. -/
def twoComments (size : Nat) : List BuildStep :=
  [.token .blockComment (String.ofList (List.replicate size ' ')),
    .token .blockComment (String.ofList (List.replicate size ' '))]

/-- Comments open and close no nodes. -/
theorem balanced_twoComments (size : Nat) : BuildStep.Balanced (twoComments size) := by
  refine ⟨fun before hbefore => ?_, rfl⟩
  have hends : BuildStep.ends before ≤ BuildStep.ends (twoComments size) :=
    hbefore.sublist.countP_le
  exact hends.trans (Nat.zero_le _)

/-- Two comments inside a node take twice the bytes of one. -/
theorem size_text_twoComments (size : Nat) :
    (BuildStep.text (.startNode .sourceFile :: twoComments size ++ [.endNode])).utf8ByteSize =
      size + size := by
  let blanks := String.ofList (List.replicate size ' ')
  have hblanks : blanks.utf8ByteSize = size := by
    rw [← sum_utf8Size_toList, String.toList_ofList, List.map_replicate, List.sum_replicate_nat]
    exact Nat.mul_one size
  have htext : BuildStep.text (.startNode .sourceFile :: twoComments size ++ [.endNode]) =
      String.join [blanks, blanks] := rfl
  rw [htext]
  simp [hblanks]

/-- Balanced steps inside a node build no tree if their bytes do not fit in a word, and a blank
becomes a token without a span being returned for it. -/
theorem long_comments_build_no_tree :
    BuildStep.Balanced (twoComments 2147483648) ∧
    Tree.ofSteps? ⟨0⟩ (.startNode .sourceFile :: twoComments 2147483648 ++ [.endNode]) = none ∧
    (∃ tree, Tree.ofSteps? ⟨0⟩ [.startNode .codeBlock, .space, .endNode] = some tree ∧
      tree.root.tokens.length = 1) ∧
    (Builder.empty.openNode .codeBlock).returned? .space = none := by
  refine ⟨balanced_twoComments _, ?_, ⟨_, rfl, by decide⟩, rfl⟩
  rw [Option.eq_none_iff_forall_ne_some]
  intro tree htree
  have hlt := Builder.size_text_lt_of_ofSteps? htree
  rw [size_text_twoComments] at hlt
  exact absurd hlt (by decide)

/-- The steps of a node with two tokens, of which the second returns no span. -/
def twoTokenSteps : List BuildStep :=
  [.startNode .reference, .ident "é", .space, .endNode]

/-- Behind a node that is opened and never closed, the steps of a node build this node, with its
first token at the span returned; inside one that is closed at the end, they build that one. -/
theorem ofSteps?_lossless_two_tokens :
    (∃ tree, Tree.ofSteps? ⟨0⟩ (.startNode .classDecl :: twoTokenSteps) = some tree ∧
      tree.kind = .reference ∧ tree.root.text = "é " ∧
      ∃ b t, Builder.empty.run? [.startNode .classDecl, .startNode .reference] = some b ∧
        tree.root.tokens[0]? = some t ∧ t.text = "é" ∧ b.returned? (.ident "é") = some t.span) ∧
    ∃ tree, Tree.ofSteps? ⟨0⟩ (.startNode .sourceFile :: twoTokenSteps ++ [.endNode]) = some tree ∧
      tree.kind = .sourceFile := by
  refine ⟨⟨⟨⟨0⟩, .reference, [.token .ident "é", .token .whitespace " "]⟩, rfl, rfl, ?_, ?_⟩, ?_⟩
  · exact ((ofSteps?_lossless ⟨0⟩ (.startNode .classDecl :: twoTokenSteps)).2.2.2.1 _ rfl).1
  · have hreturned :=
      ((ofSteps?_lossless ⟨0⟩ (.startNode .classDecl :: twoTokenSteps)).2.2.2.1 _ rfl).2.2.2
    obtain ⟨b, t, hrun, ht, -, htext, hspan⟩ := hreturned
      [.startNode .classDecl, .startNode .reference] (.ident "é") [.space, .endNode] rfl
      .ident "é" (.inr ⟨rfl, rfl⟩)
    exact ⟨b, t, hrun, ht, htext, hspan⟩
  · have hfits := (ofSteps?_lossless ⟨0⟩
      (.startNode .sourceFile :: twoTokenSteps ++ [.endNode])).2.2.2.2 .sourceFile twoTokenSteps rfl
    exact (hfits (by decide)).2 (by decide)

end SymbolRanges

import Mathlib.Algebra.Ring.Nat
import SymbolRanges.Proofs.Tree.Tokens
import SymbolRanges.Proofs.Walk.Numbering

/-!
# The outline of code

How variables are numbered depends on little of the code: on its marker comments and on the texts of
the names that each construct declares. This is the outline of the code. It does not depend on where
the code stands (`Element.map_outline_preorderAll`), and a change inside a block at any depth
changes only the part of it that belongs to the block (`Element.exists_outline_within`).
-/

set_option autoImplicit false

namespace SymbolRanges

/-- The outline of an item: the region that it switches to, if it is a marker, and the names of the
variables that it declares. -/
structure Outline where
  marker? : Option Region
  names : List String

/-- The outline of an item in its place. -/
def Item.outline (options : Options) (item : Item) : Outline :=
  ⟨item.marker? options, item.variableNames.map Token.text⟩

/-! ### Names without places -/

namespace Element

/-- The text of the first identifier among elements. -/
def nameText? : List Element → Option String
  | [] => none
  | token kind text :: rest => if kind = .ident then some text else nameText? rest
  | node _ _ :: rest => nameText? rest

/-- The name of an element that is a node of a kind. A node of the kind may lack a name. -/
def named? (kind : Kind) : Element → Option (Option String)
  | token _ _ => none
  | node k children => if k = kind then some (nameText? children) else none

/-- The names of the variables that a node of a kind declares itself. -/
def variableTexts (kind : Kind) (children : List Element) : List String :=
  match kind with
  | .declarationStatement => (children.filterMap (named? .localVariable)).filterMap id
  | .catchSection | .foreachStatement =>
    (children.filterMap (named? .parameter)).head?.toList.filterMap id
  | _ => []

/-- A node among elements does not change the name that they give to what is around them. -/
theorem nameText?_append_node (xs ys : List Element) (kind : Kind) (children : List Element) :
    nameText? (xs ++ node kind children :: ys) = nameText? (xs ++ ys) := by
  induction xs with
  | nil => rfl
  | cons e rest ih =>
    cases e with
    | token k text => simp only [List.cons_append, nameText?, ih]
    | node k es => exact ih

end Element

namespace Node

/-- The name of a node is the first identifier among its children. -/
theorem map_text_nameToken? (n : Node) :
    n.nameToken?.map Token.text = Element.nameText? n.children := by
  unfold nameToken? childTokens items
  generalize n.start = start
  induction n.children generalizing start with
  | nil => rfl
  | cons e rest ih =>
    cases e with
    | node kind es => exact ih (start + _)
    | token kind text =>
      simp only [Element.locateAll, Element.locate, List.filterMap_cons, Item.token?,
        List.find?_cons, Element.nameText?]
      by_cases hident : kind = .ident
      · simp [hident]
      · simp only [hident, decide_false, if_false]
        exact ih (start + _)

/-- The names of the children of a kind are read off the elements themselves. -/
theorem map_name_childrenOfKind (n : Node) (kind : Kind) :
    (n.childrenOfKind kind).map (fun c => c.nameToken?.map Token.text) =
      n.children.filterMap (Element.named? kind) := by
  unfold childrenOfKind childNodes items
  generalize n.start = start
  induction n.children generalizing start with
  | nil => rfl
  | cons e rest ih =>
    have hrest := ih (start + e.size)
    cases e with
    | token k text => exact hrest
    | node k es =>
      simp only [Element.locateAll, Element.locate, List.filterMap_cons, Item.node?,
        List.filter_cons, Element.named?]
      by_cases hkind : k = kind
      · subst hkind
        simp only [decide_true, if_true, List.map_cons, map_text_nameToken?] at hrest ⊢
        rw [hrest]
      · simp only [hkind, decide_false, if_false]
        exact hrest

/-- The names that a node declares do not depend on its place. -/
theorem map_text_variableNames (n : Node) :
    n.variableNames.map Token.text = Element.variableTexts n.kind n.children := by
  -- only the first parameter counts, and only if it has a name
  have hparameter : ((n.child? .parameter).toList.filterMap nameToken?).map Token.text =
      (n.children.filterMap (Element.named? .parameter)).head?.toList.filterMap id := by
    have hfirst : n.child? .parameter = (n.childrenOfKind .parameter).head? :=
      List.head?_filter.symm
    rw [← map_name_childrenOfKind, List.head?_map, hfirst]
    cases (n.childrenOfKind .parameter).head? with
    | none => rfl
    | some c =>
      simp only [Option.map_some, Option.toList_some]
      cases hname : c.nameToken? <;> simp [hname]
  have hlocal : ((n.childrenOfKind .localVariable).filterMap nameToken?).map Token.text =
      (n.children.filterMap (Element.named? .localVariable)).filterMap id := by
    rw [← map_name_childrenOfKind, List.map_filterMap, List.filterMap_map]
    rfl
  unfold variableNames
  cases hkind : n.kind with
  | declarationStatement =>
    rw [variableNodes_declarationStatement hkind]
    exact hlocal
  | catchSection =>
    rw [variableNodes_ofParameter (.inl hkind)]
    exact hparameter
  | foreachStatement =>
    rw [variableNodes_ofParameter (.inr hkind)]
    exact hparameter
  | _ =>
    rw [variableNodes_eq_nil (by simp [hkind]) (by simp [hkind]) (by simp [hkind])]
    rfl

end Node

/-! ### Outlines without places -/

namespace Element

variable (options : Options)

/-- The outline of consecutive elements and everything below them. -/
def outlines (es : List Element) : List Outline :=
  (preorderAll ⟨0⟩ 0 es).map (Item.outline options)

mutual

/-- The outline of an element is the same in every place. -/
theorem map_outline_preorder_eq (tree tree' : TreeId) (start start' : Nat) (e : Element) :
    (e.preorder tree start).map (Item.outline options) =
      (e.preorder tree' start').map (Item.outline options) := by
  cases e with
  | token kind text => rfl
  | node kind children =>
    have hself (tree : TreeId) (start : Nat) :
        (Item.node ⟨tree, start, kind, children⟩).outline options =
          ⟨none, variableTexts kind children⟩ :=
      congrArg (Outline.mk none) (Node.map_text_variableNames ⟨tree, start, kind, children⟩)
    rw [preorder, preorder, List.map_cons, List.map_cons, hself, hself,
      map_outline_preorderAll_eq tree tree' start start' children]

/-- The outline of consecutive elements is the same in every place. -/
theorem map_outline_preorderAll_eq (tree tree' : TreeId) (start start' : Nat)
    (es : List Element) :
    (preorderAll tree start es).map (Item.outline options) =
      (preorderAll tree' start' es).map (Item.outline options) := by
  cases es with
  | nil => rfl
  | cons e rest =>
    rw [preorderAll, preorderAll, List.map_append, List.map_append,
      map_outline_preorder_eq tree tree' start start' e,
      map_outline_preorderAll_eq tree tree' (start + e.size) (start' + e.size) rest]

end

/-- The outline of elements does not depend on their place. -/
theorem map_outline_preorderAll (tree : TreeId) (start : Nat) (es : List Element) :
    (preorderAll tree start es).map (Item.outline options) = outlines options es :=
  map_outline_preorderAll_eq options tree ⟨0⟩ start 0 es

/-- The outline of consecutive elements is that of each stretch of them. -/
theorem outlines_append (xs ys : List Element) :
    outlines options (xs ++ ys) = outlines options xs ++ outlines options ys := by
  rw [outlines, preorderAll_append, List.map_append, map_outline_preorderAll,
    map_outline_preorderAll]

/-- The outline of a marker. -/
theorem outlines_marker {text : String} {region : Region}
    (h : options.marker? text = some region) :
    outlines options [.token .lineComment text] = [⟨some region, []⟩] := by
  rw [← h]
  rfl

/-- The number of items that elements consist of. -/
def count (es : List Element) : Nat := (preorderAll ⟨0⟩ 0 es).length

/-- The pre-order of elements has as many items as they count. -/
theorem length_preorderAll (tree : TreeId) (start : Nat) (es : List Element) :
    (preorderAll tree start es).length = count es := by
  have hlength := congrArg List.length (map_outline_preorderAll {} tree start es)
  rw [List.length_map, outlines, List.length_map] at hlength
  exact hlength

/-- The outline of elements has as many parts as they count. -/
theorem length_outlines (es : List Element) : (outlines options es).length = count es :=
  List.length_map _

end Element

/-! ### A block inside other nodes -/

/-- A node around an element: its kind, and what stands before and after the element. -/
structure Frame where
  kind : Kind
  before : List Element
  after : List Element

/-- The number of items that come before what stands in a block inside frames: everything before
the block in each frame, the frames themselves and the block. -/
def Frame.placesAbove (frames : List Frame) : Nat :=
  (frames.map fun f => Element.count f.before + 1).sum + 1

namespace Element

/-- An element inside frames, the outermost first. -/
def within : List Frame → Element → Element
  | [], e => e
  | f :: frames, e => node f.kind (f.before ++ within frames e :: f.after)

/-- What stands in a block inside frames does not show in the names of the frames. -/
theorem named?_within {kind : Kind} (hkind : kind ≠ .codeBlock) (frames : List Frame)
    (es es' : List Element) :
    named? kind (within frames (node .codeBlock es)) =
      named? kind (within frames (node .codeBlock es')) := by
  cases frames with
  | nil => simp [within, named?, hkind.symm]
  | cons f rest =>
    have hname (es : List Element) :
        nameText? (f.before ++ within rest (node .codeBlock es) :: f.after) =
          nameText? (f.before ++ f.after) := by
      cases rest <;> exact nameText?_append_node _ _ _ _
    simp only [within, named?, hname]

/-- What stands in a block further in does not change the variables of a construct around it. -/
theorem variableTexts_within (f : Frame) (frames : List Frame) (es es' : List Element) :
    variableTexts f.kind (f.before ++ within frames (node .codeBlock es) :: f.after) =
      variableTexts f.kind (f.before ++ within frames (node .codeBlock es') :: f.after) := by
  have hnamed {kind : Kind} (hkind : kind ≠ .codeBlock) :
      (f.before ++ within frames (node .codeBlock es) :: f.after).filterMap (named? kind) =
        (f.before ++ within frames (node .codeBlock es') :: f.after).filterMap (named? kind) := by
    rw [List.filterMap_append, List.filterMap_append, List.filterMap_cons, List.filterMap_cons,
      named?_within hkind frames es es']
  have hlocal := hnamed (show Kind.localVariable ≠ .codeBlock by decide)
  have hparameter := hnamed (show Kind.parameter ≠ .codeBlock by decide)
  unfold variableTexts
  rw [hlocal, hparameter]

/-- What stands in a block inside frames comes in one stretch, and the outlines before and after it
are always the same. -/
theorem exists_outline_within (options : Options) (frames : List Frame) :
    ∃ above below : List Outline, above.length = Frame.placesAbove frames ∧
      ∀ tree start es, ∃ up down position,
        (within frames (node .codeBlock es)).preorder tree start =
          up ++ preorderAll tree position es ++ down ∧
        up.map (Item.outline options) = above ∧ down.map (Item.outline options) = below := by
  induction frames with
  | nil =>
    refine ⟨[⟨none, []⟩], [], rfl, fun tree start es => ?_⟩
    refine ⟨[.node ⟨tree, start, .codeBlock, es⟩], [], start, ?_, rfl, rfl⟩
    rw [List.append_nil]
    rfl
  | cons f frames ih =>
    obtain ⟨above, below, hlength, hinner⟩ := ih
    let texts := variableTexts f.kind (f.before ++ within frames (node .codeBlock []) :: f.after)
    refine ⟨⟨none, texts⟩ :: (outlines options f.before ++ above),
      below ++ outlines options f.after, ?_, fun tree start es => ?_⟩
    · rw [List.length_cons, List.length_append, length_outlines, hlength, Frame.placesAbove,
        Frame.placesAbove, List.map_cons, List.sum_cons]
      omega
    · let children := f.before ++ within frames (node .codeBlock es) :: f.after
      -- the frame adds itself and what stands beside it on either side
      let self : Node := ⟨tree, start, f.kind, children⟩
      let stop := start + sizeAll f.before + (within frames (node .codeBlock es)).size
      obtain ⟨up, down, position, hsplit, hup, hdown⟩ :=
        hinner tree (start + sizeAll f.before) es
      refine ⟨.node self :: (preorderAll tree start f.before ++ up),
        down ++ preorderAll tree stop f.after, position, ?_, ?_, ?_⟩
      · rw [within, preorder, preorderAll_append, preorderAll, hsplit]
        simp only [List.cons_append, List.append_assoc]
        rfl
      · have hself : (Item.node self).outline options = ⟨none, texts⟩ := by
          have hnames : self.variableNames.map Token.text = texts :=
            self.map_text_variableNames.trans (variableTexts_within f frames es [])
          exact congrArg (Outline.mk none) hnames
        rw [List.map_cons, List.map_append, map_outline_preorderAll, hself, hup]
      · rw [List.map_append, map_outline_preorderAll, hdown]

/-- In a node that is a block inside frames, the outlines before and after any stretch of the block
depend only on what stands there in the block, and not on the stretch. -/
theorem exists_outline_stretch (options : Options) (frames : List Frame) :
    ∃ above below : List Outline, above.length = Frame.placesAbove frames ∧
      ∀ (n : Node) (xs ys zs : List Element),
        node n.kind n.children = within frames (node .codeBlock (xs ++ ys ++ zs)) →
        ∃ before position after,
          n.preorder = before ++ preorderAll n.tree position ys ++ after ∧
          before.map (Item.outline options) = above ++ outlines options xs ∧
          after.map (Item.outline options) = outlines options zs ++ below := by
  obtain ⟨above, below, hlength, hwithin⟩ := exists_outline_within options frames
  refine ⟨above, below, hlength, fun n xs ys zs hn => ?_⟩
  obtain ⟨up, down, position, hsplit, hup, hdown⟩ := hwithin n.tree n.start (xs ++ ys ++ zs)
  have hpreorder : n.preorder = (node n.kind n.children).preorder n.tree n.start := rfl
  refine ⟨up ++ preorderAll n.tree position xs, position + sizeAll xs,
    preorderAll n.tree (position + sizeAll (xs ++ ys)) zs ++ down, ?_, ?_, ?_⟩
  · rw [hpreorder, hn, hsplit, preorderAll_append, preorderAll_append]
    simp only [List.append_assoc]
  · rw [List.map_append, hup, map_outline_preorderAll]
  · rw [List.map_append, hdown, map_outline_preorderAll]

/-- Two nodes that are alike but for code between two markers in a block of the second: so are their
outlines. -/
theorem exists_outline_insertion {options : Options} {n n' : Node} {frames : List Frame}
    {cs₁ inj cs₂ : List Element} {opening closing : String}
    (hn : node n.kind n.children = within frames (node .codeBlock (cs₁ ++ cs₂)))
    (hn' : node n'.kind n'.children = within frames (node .codeBlock
      (cs₁ ++ [.token .lineComment opening] ++ inj ++ [.token .lineComment closing] ++ cs₂)))
    (hopening : options.marker? opening = some .injected)
    (hclosing : options.marker? closing = some .normal) :
    ∃ (xs ys : List Outline) (before : List Item) (position : Nat) (after : List Item),
      xs.length = Frame.placesAbove frames + count cs₁ ∧
      n.preorder.map (Item.outline options) = xs ++ ys ∧
      n'.preorder = before ++ preorderAll n'.tree position inj ++ after ∧
      before.map (Item.outline options) = xs ++ [⟨some .injected, []⟩] ∧
      after.map (Item.outline options) = [⟨some .normal, []⟩] ++ ys := by
  obtain ⟨above, below, hlength, hstretch⟩ := exists_outline_stretch options frames
  obtain ⟨before, position, after, hsplit, hbefore, hafter⟩ :=
    hstretch n cs₁ cs₂ [] (by rw [hn, List.append_nil])
  obtain ⟨before', position', after', hsplit', hbefore', hafter'⟩ :=
    hstretch n' (cs₁ ++ [.token .lineComment opening]) inj ([.token .lineComment closing] ++ cs₂)
      (by rw [hn', List.append_assoc _ [_] cs₂])
  refine ⟨above ++ outlines options cs₁, outlines options cs₂ ++ below, before', position', after',
    ?_, ?_, hsplit', ?_, ?_⟩
  · rw [List.length_append, hlength, length_outlines]
  · rw [hsplit, List.map_append, List.map_append, hbefore, map_outline_preorderAll, hafter,
      List.append_assoc _ (outlines options cs₂)]
    rfl
  · rw [hbefore', outlines_append, outlines_marker options hopening, List.append_assoc]
  · rw [hafter', outlines_append, outlines_marker options hclosing, List.append_assoc]

end Element

/-! ### What an outline says -/

namespace Outline

/-- The region after items with given outlines, when they are entered in a region. -/
def regionFrom (entered : Region) (outlines : List Outline) : Region :=
  outlines.foldl (fun region o => o.marker?.getD region) entered

/-- The names that items with given outlines declare in a region, when they are entered in
another. -/
def namesIn (region : Region) : Region → List Outline → List String
  | _, [] => []
  | entered, o :: rest =>
    (if entered = region then o.names else []) ++ namesIn region (o.marker?.getD entered) rest

variable {region entered : Region}

/-- The names in a region are those of both stretches, the second entered from the first. -/
theorem namesIn_append (xs ys : List Outline) :
    namesIn region entered (xs ++ ys) =
      namesIn region entered xs ++ namesIn region (regionFrom entered xs) ys := by
  induction xs generalizing entered with
  | nil => rfl
  | cons o rest ih =>
    rw [List.cons_append, namesIn, namesIn, ih, List.append_assoc]
    rfl

/-- Without a marker a region is not left. -/
theorem regionFrom_of_no_marker {xs : List Outline} (h : ∀ o ∈ xs, o.marker? = none) :
    regionFrom entered xs = entered := by
  induction xs with
  | nil => rfl
  | cons o rest ih =>
    have hrest := ih fun other hother => h other (List.mem_cons_of_mem o hother)
    show regionFrom (o.marker?.getD entered) rest = entered
    rw [h o List.mem_cons_self]
    exact hrest

/-- Without a marker nothing is declared in another region than the one that is entered. -/
theorem namesIn_eq_nil {xs : List Outline} (hne : entered ≠ region)
    (h : ∀ o ∈ xs, o.marker? = none) : namesIn region entered xs = [] := by
  induction xs with
  | nil => rfl
  | cons o rest ih =>
    have hrest := ih fun other hother => h other (List.mem_cons_of_mem o hother)
    rw [namesIn, if_neg hne, h o List.mem_cons_self]
    exact hrest

/-- Code between two markers adds nothing to what is declared in ordinary code, if ordinary code
surrounds it. -/
theorem namesIn_insert {xs inserted : List Outline} (ys : List Outline)
    (hentered : regionFrom entered xs = .normal) (hinserted : ∀ o ∈ inserted, o.marker? = none) :
    namesIn .normal entered
        (xs ++ [⟨some .injected, []⟩] ++ inserted ++ ([⟨some .normal, []⟩] ++ ys)) =
      namesIn .normal entered (xs ++ ys) := by
  have hnames : namesIn .normal .injected inserted = [] :=
    namesIn_eq_nil (by decide) hinserted
  have hopen : regionFrom entered (xs ++ [⟨some .injected, []⟩]) = .injected := by
    rw [regionFrom, List.foldl_append]
    rfl
  have hleave : namesIn .normal entered (xs ++ [⟨some .injected, []⟩]) =
      namesIn .normal entered xs := by
    rw [namesIn_append, hentered]
    exact List.append_nil _
  rw [namesIn_append, namesIn_append _ inserted, hleave, hopen, hnames, List.append_nil,
    namesIn_append xs, hentered]
  congr 1
  rw [List.singleton_append, namesIn]
  split <;> rfl

end Outline

namespace Options

variable (options : Options)

/-- The names of the variables that items declare in a region, when they are entered in another. -/
def namesIn (region entered : Region) (items : List Item) : List Token :=
  ((options.variablesFrom entered items).filter fun v => decide (v.2 = region)).map Prod.fst

/-- The region after items is read off their outlines. -/
theorem regionFrom_eq_outline (entered : Region) (items : List Item) :
    options.regionFrom entered items =
      Outline.regionFrom entered (items.map (Item.outline options)) := by
  induction items generalizing entered with
  | nil => rfl
  | cons item rest ih => exact ih _

/-- The names in a region are those of the first item, if it is in the region, and of the rest. -/
theorem namesIn_cons (region entered : Region) (item : Item) (rest : List Item) :
    options.namesIn region entered (item :: rest) =
      (if entered = region then item.variableNames else []) ++
        options.namesIn region ((item.marker? options).getD entered) rest := by
  unfold namesIn
  rw [variablesFrom, List.filter_append, List.map_append, List.filter_map, List.map_map]
  congr 1
  by_cases hregion : entered = region
  · simp [Function.comp_def, hregion]
  · simp [Function.comp_def, hregion]

/-- The texts of the names are read off the outline. -/
theorem map_text_namesIn (region entered : Region) (items : List Item) :
    (options.namesIn region entered items).map Token.text =
      Outline.namesIn region entered (items.map (Item.outline options)) := by
  induction items generalizing entered with
  | nil => rfl
  | cons item rest ih =>
    rw [namesIn_cons, List.map_append, ih, List.map_cons, Outline.namesIn]
    congr 1
    split <;> rfl

/-- The names in a region are those of both lists of items, the second entered from the first. -/
theorem namesIn_append (region entered : Region) (xs ys : List Item) :
    options.namesIn region entered (xs ++ ys) = options.namesIn region entered xs ++
      options.namesIn region (options.regionFrom entered xs) ys := by
  unfold namesIn
  rw [variablesFrom_append, List.filter_append, List.map_append]

/-- Items without a marker are in the region that they are entered in. -/
theorem regionFrom_of_no_marker (region : Region) {items : List Item}
    (h : ∀ item ∈ items, item.marker? options = none) :
    options.regionFrom region items = region := by
  rw [regionFrom_eq_outline]
  apply Outline.regionFrom_of_no_marker
  intro o ho
  obtain ⟨item, hitem, rfl⟩ := List.mem_map.1 ho
  exact h item hitem

/-- Items without markers, entered in a region, have all their names in it. -/
theorem namesIn_of_no_marker (region : Region) {items : List Item}
    (h : ∀ item ∈ items, item.marker? options = none) :
    options.namesIn region region items = items.flatMap Item.variableNames := by
  induction items with
  | nil => rfl
  | cons item rest ih =>
    have hitem := h item List.mem_cons_self
    have hrest := ih fun other hother => h other (List.mem_cons_of_mem item hother)
    rw [namesIn_cons, if_pos rfl, hitem, List.flatMap_cons]
    exact congrArg _ hrest

end Options

end SymbolRanges

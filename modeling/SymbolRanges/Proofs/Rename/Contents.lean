import Mathlib.Data.List.Forall2
import SymbolRanges.Proofs.IndexTable
import SymbolRanges.Proofs.Text.Split
import SymbolRanges.Rename.Load

/-!
# What a rename table holds

A line either renames something or is counted as skipped or unrecognized. Which of these it is, and
what it renames, is said here by its words alone: `IsShort`, `LacksNewName`, `IsUnknown` and
`IsAccepted` sort the lines, and `Says` relates an accepted line to its renaming, with `HasPath` for
the paths in it. The tables of a text are then filled with the renamings of its accepted lines, in
order.
-/

set_option autoImplicit false

namespace SymbolRanges.Rename

/-! ### Paths -/

/-- A path is the segments of a symbol between slashes: the last segment is its name, and the
others, with dots between them, are its owner. -/
def Member.HasPath (m : Member) (path : String) : Prop :=
  ∃ outer : List String, (∀ segment ∈ outer ++ [m.name], '/' ∉ segment.toList) ∧
    path = "/".intercalate (outer ++ [m.name]) ∧ m.owner = ".".intercalate outer

/-- Every path has a segment. -/
theorem segments_ne_nil (path : String) : segments path ≠ [] :=
  Text.pieces_ne_nil _ _

/-- Every path is the path of the symbol that it is read as. -/
theorem Member.hasPath_ofPath (path : String) : (Member.ofPath path).HasPath path := by
  have hsplit : (segments path).dropLast ++ [(segments path).getLastD []] = segments path := by
    rw [List.getLastD_eq_getLast?, List.getLast?_eq_some_getLast (segments_ne_nil path)]
    exact List.dropLast_concat_getLast (segments_ne_nil path)
  have hsegments : ((segments path).dropLast.map String.ofList ++ [pathName path]).map
      String.toList = segments path := by
    rw [List.map_append, List.map_map, String.toList_comp_ofList, List.map_id]
    simpa [pathName] using hsplit
  refine ⟨(segments path).dropLast.map String.ofList, ?_, ?_, ?_⟩
  · intro segment hsegment
    have hmem := List.mem_map_of_mem (f := String.toList) hsegment
    rw [Member.ofPath, hsegments] at hmem
    exact Text.notMem_of_mem_pieces '/' hmem
  · rw [← String.toList_inj, String.toList_intercalate, Member.ofPath, hsegments]
    exact (Text.intercalate_pieces '/' path.toList).symm
  · rw [← String.toList_inj, String.toList_intercalate, List.map_map, String.toList_comp_ofList,
      List.map_id]
    exact String.toList_ofList

/-- A path belongs to one symbol only. -/
theorem Member.HasPath.eq_ofPath {m : Member} {path : String} (h : m.HasPath path) :
    m = Member.ofPath path := by
  obtain ⟨outer, hplain, hpath, howner⟩ := h
  have hsegments : segments path = (outer ++ [m.name]).map String.toList := by
    rw [segments, hpath, String.toList_intercalate]
    refine Text.pieces_intercalate '/' (by simp) ?_
    intro piece hpiece
    obtain ⟨segment, hsegment, rfl⟩ := List.mem_map.1 hpiece
    exact hplain segment hsegment
  have hname : pathName path = m.name := by
    simp [pathName, hsegments]
  have howner' : pathOwner path = m.owner := by
    rw [pathOwner, hsegments, howner, ← String.toList_inj, String.toList_ofList,
      String.toList_intercalate]
    simp
  rw [Member.ofPath, hname, howner']

/-! ### Lines by their words -/

/-- A line has fewer than three words. -/
def IsShort (words : List String) : Prop := words.length < 3

/-- A line renames a method and has no word for its new name. -/
def LacksNewName (words : List String) : Prop := words.head? = some "MD:" ∧ words.length = 3

/-- A line is long enough and starts with an unknown tag. -/
def IsUnknown (words : List String) : Prop :=
  3 ≤ words.length ∧ ∀ tag ∈ ["CL:", "FD:", "MD:", "PA:"], words.head? ≠ some tag

/-- A line has a known tag and as many words as the tag calls for. -/
def IsAccepted (words : List String) : Prop :=
  (words.head? = some "CL:" ∨ words.head? = some "FD:" ∨ words.head? = some "PA:") ∧
      3 ≤ words.length ∨
    words.head? = some "MD:" ∧ 4 ≤ words.length

instance : DecidablePred IsShort := fun words => inferInstanceAs (Decidable (words.length < 3))

instance : DecidablePred LacksNewName := fun words =>
  inferInstanceAs (Decidable (words.head? = some "MD:" ∧ words.length = 3))

instance : DecidablePred IsUnknown := fun words =>
  inferInstanceAs (Decidable
    (3 ≤ words.length ∧ ∀ tag ∈ ["CL:", "FD:", "MD:", "PA:"], words.head? ≠ some tag))

instance : DecidablePred IsAccepted := fun words =>
  inferInstanceAs (Decidable
    ((words.head? = some "CL:" ∨ words.head? = some "FD:" ∨ words.head? = some "PA:") ∧
        3 ≤ words.length ∨
      words.head? = some "MD:" ∧ 4 ≤ words.length))

/-- What the words of an accepted line rename. Words that a tag does not call for are ignored. -/
inductive Says : List String → Renaming → Prop
  /-- A class goes by its name alone where it has no owner, and has a new name without an owner. -/
  | className {path newPath oldName : String} {more : List String} {old new : Member}
    (hold : old.HasPath path) (hnew : new.HasPath newPath)
    (hname : oldName = if old.owner = "" then old.name else old.owner ++ "." ++ old.name) :
    Says ("CL:" :: path :: newPath :: more) (.className oldName ⟨oldName, new.name⟩)
  | field {path newPath : String} {more : List String} {old new : Member}
    (hold : old.HasPath path) (hnew : new.HasPath newPath) :
    Says ("FD:" :: path :: newPath :: more) (.field old ⟨old.owner, old.name, new.name⟩)
  | method {path signature newPath : String} {more : List String} {old new : Member}
    (hold : old.HasPath path) (hnew : new.HasPath newPath) :
    Says ("MD:" :: path :: signature :: newPath :: more)
      (.method ⟨old.owner, old.name, signature⟩ ⟨old.owner, old.name, signature, new.name⟩)
  | parameters {path signature : String} {names : List String} {old : Member}
    (hold : old.HasPath path) :
    Says ("PA:" :: path :: signature :: names)
      (.parameters ⟨old.owner, old.name, signature⟩ ⟨old.owner, old.name, signature, names⟩)

/-- Reading the words of a line gives what they say, and nothing if they say nothing. -/
theorem ofWords_eq_ok_iff {words : List String} {r : Renaming} :
    Renaming.ofWords words = .ok r ↔ Says words r := by
  constructor
  · intro h
    rcases words with _ | ⟨tag, _ | ⟨path, _ | ⟨third, more⟩⟩⟩
    · cases h
    · cases h
    · cases h
    · simp only [Renaming.ofWords, Renaming.ofTagged] at h
      split at h
      · next htag =>
        cases h
        cases htag
        exact .className (Member.hasPath_ofPath path) (Member.hasPath_ofPath third) rfl
      · split at h
        · next htag =>
          cases h
          cases htag
          exact .field (Member.hasPath_ofPath path) (Member.hasPath_ofPath third)
        · split at h
          · next htag =>
            cases htag
            cases more with
            | nil => cases h
            | cons newPath more =>
              cases h
              exact .method (Member.hasPath_ofPath path) (Member.hasPath_ofPath newPath)
          · split at h
            · next htag =>
              cases h
              cases htag
              exact .parameters (Member.hasPath_ofPath path)
            · cases h
  · intro h
    cases h with
    | className hold hnew hname =>
      rw [hname, hold.eq_ofPath, hnew.eq_ofPath]
      rfl
    | field hold hnew =>
      rw [hold.eq_ofPath, hnew.eq_ofPath]
      rfl
    | method hold hnew =>
      rw [hold.eq_ofPath, hnew.eq_ofPath]
      rfl
    | parameters hold =>
      rw [hold.eq_ofPath]
      rfl

/-- What a line of at least three words comes to, by its tag. -/
theorem ofTagged_cases (tag path third : String) (more : List String) :
    ((tag = "CL:" ∨ tag = "FD:" ∨ tag = "PA:" ∨ tag = "MD:" ∧ more ≠ []) ∧
      ∃ r, Renaming.ofTagged tag path third more = .ok r) ∨
    (tag = "MD:" ∧ more = [] ∧
      Renaming.ofTagged tag path third more = .error .methodWithoutNewName) ∨
    (∀ known ∈ ["CL:", "FD:", "MD:", "PA:"], tag ≠ known) ∧
      Renaming.ofTagged tag path third more = .error .unrecognized := by
  unfold Renaming.ofTagged Renaming.classTag Renaming.fieldTag Renaming.methodTag
    Renaming.parametersTag
  grind

/-- The four sorts of lines are the four things that reading the words of a line comes to. -/
theorem sort_iff (words : List String) :
    (IsAccepted words ↔ ∃ r, Renaming.ofWords words = .ok r) ∧
    (IsShort words ↔
      Renaming.ofWords words = .error .blank ∨ Renaming.ofWords words = .error .short) ∧
    (LacksNewName words ↔ Renaming.ofWords words = .error .methodWithoutNewName) ∧
    (IsUnknown words ↔ Renaming.ofWords words = .error .unrecognized) := by
  unfold IsAccepted IsShort LacksNewName IsUnknown
  rcases words with _ | ⟨tag, _ | ⟨path, _ | ⟨third, more⟩⟩⟩
  · simp [Renaming.ofWords]
  · simp [Renaming.ofWords]
  · simp [Renaming.ofWords]
  · have hlong : ¬ more.length + 1 + 1 + 1 < 3 := by omega
    rcases ofTagged_cases tag path third more with ⟨htag, r, hr⟩ | ⟨rfl, rfl, hr⟩ | ⟨htag, hr⟩
    · rcases htag with rfl | rfl | rfl | ⟨rfl, hmore⟩
      · simp [Renaming.ofWords, hr, hlong]
      · simp [Renaming.ofWords, hr, hlong]
      · simp [Renaming.ofWords, hr, hlong]
      · have hnew : 1 ≤ more.length := List.length_pos_iff.2 hmore
        simp [Renaming.ofWords, hr, hlong, hmore, hnew]
    · simp [Renaming.ofWords, hr]
    · simp only [List.forall_mem_cons] at htag
      simp [Renaming.ofWords, hr, hlong, htag]

/-! ### Filling the tables -/

namespace Renaming

/-- The entry that a renaming makes in the table of classes. -/
def classEntry? : Renaming → Option (String × ClassRename)
  | className renamed entry => some (renamed, entry)
  | _ => none

/-- The entry that a renaming makes in the table of fields. -/
def fieldEntry? : Renaming → Option (Member × FieldRename)
  | field renamed entry => some (renamed, entry)
  | _ => none

/-- The entry that a renaming makes in the table of methods. -/
def methodEntry? : Renaming → Option (Method × MethodRename)
  | method renamed entry => some (renamed, entry)
  | _ => none

/-- The entry that a renaming makes in the table of parameters. -/
def parametersEntry? : Renaming → Option (Method × ParameterNames)
  | parameters renamed entry => some (renamed, entry)
  | _ => none

/-- The renamings of lines, in order. -/
def ofLines (lines : List (List String)) : List Renaming :=
  lines.filterMap fun words => (ofWords words).toOption

/-- A line with a renaming adds it in front of those of the other lines. -/
theorem ofLines_cons_of_ok {words : List String} {r : Renaming} (h : ofWords words = .ok r)
    (rest : List (List String)) : ofLines (words :: rest) = r :: ofLines rest := by
  simp [ofLines, h, Except.toOption]

/-- A line without a renaming adds nothing to those of the other lines. -/
theorem ofLines_cons_of_error {words : List String} {rejection : Rejection}
    (h : ofWords words = .error rejection) (rest : List (List String)) :
    ofLines (words :: rest) = ofLines rest := by
  simp [ofLines, h, Except.toOption]

end Renaming

namespace Tables

/-- What the words of a line do to tables. -/
def addWords (t : Tables) (words : List String) : Tables :=
  match Renaming.ofWords words with
  | .ok r => t.insert r
  | .error rejection => t.reject rejection

/-- A line makes at most one entry, and is counted once if it makes none. -/
theorem foldl_addWords (t : Tables) (lines : List (List String)) :
    lines.foldl addWords t =
      { classes := t.classes.insertAll ((Renaming.ofLines lines).filterMap Renaming.classEntry?)
        fields := t.fields.insertAll ((Renaming.ofLines lines).filterMap Renaming.fieldEntry?)
        methods := t.methods.insertAll ((Renaming.ofLines lines).filterMap Renaming.methodEntry?)
        parameters :=
          t.parameters.insertAll ((Renaming.ofLines lines).filterMap Renaming.parametersEntry?)
        skipped := t.skipped + lines.countP IsShort + lines.countP LacksNewName
        unrecognized := t.unrecognized + lines.countP IsUnknown } := by
  induction lines generalizing t with
  | nil => rfl
  | cons words rest ih =>
    rw [List.foldl_cons, ih]
    obtain ⟨-, hshort, hlacks, hunknown⟩ := sort_iff words
    -- an accepted line adds to one table, and any other line to one counter
    cases hwords : Renaming.ofWords words with
    | ok r =>
      rw [Renaming.ofLines_cons_of_ok hwords]
      cases r <;>
        simp [addWords, hwords, insert, List.filterMap_cons, Renaming.classEntry?,
          Renaming.fieldEntry?, Renaming.methodEntry?, Renaming.parametersEntry?, Table.insertAll,
          hshort, hlacks, hunknown]
    | error rejection =>
      rw [Renaming.ofLines_cons_of_error hwords]
      cases rejection <;>
        simp [addWords, hwords, reject, skip, hshort, hlacks, hunknown] <;> omega

end Tables

/-- The accepted lines say the renamings that are read from the lines, one each and in order. -/
theorem forall₂_says_iff {lines : List (List String)} {renamings : List Renaming} :
    List.Forall₂ Says (lines.filter IsAccepted) renamings ↔ renamings = Renaming.ofLines lines := by
  induction lines generalizing renamings with
  | nil => simp [Renaming.ofLines]
  | cons words rest ih =>
    obtain ⟨haccepted, -⟩ := sort_iff words
    -- the filter keeps exactly the lines that are read as a renaming
    cases hwords : Renaming.ofWords words with
    | ok r =>
      have hkept : decide (IsAccepted words) = true := decide_eq_true (haccepted.2 ⟨r, hwords⟩)
      rw [Renaming.ofLines_cons_of_ok hwords, List.filter_cons, if_pos hkept,
        List.forall₂_cons_left_iff]
      constructor
      · rintro ⟨said, others, hsaid, hothers, rfl⟩
        have hr : said = r := Except.ok.inj ((ofWords_eq_ok_iff.2 hsaid).symm.trans hwords)
        rw [hr, ih.1 hothers]
      · rintro rfl
        exact ⟨r, Renaming.ofLines rest, ofWords_eq_ok_iff.1 hwords, ih.2 rfl, rfl⟩
    | error rejection =>
      have hdropped : ¬ decide (IsAccepted words) = true := by
        rw [decide_eq_true_iff, haccepted, hwords]
        rintro ⟨r, hr⟩
        cases hr
      rw [Renaming.ofLines_cons_of_error hwords, List.filter_cons, if_neg hdropped, ih]

/-- Every line is of one sort. -/
theorem length_eq_sorts (lines : List (List String)) :
    lines.length = lines.countP IsShort + lines.countP LacksNewName + lines.countP IsUnknown +
      lines.countP IsAccepted := by
  induction lines with
  | nil => rfl
  | cons words rest ih =>
    obtain ⟨haccepted, hshort, hlacks, hunknown⟩ := sort_iff words
    rw [List.length_cons, ih]
    cases hwords : Renaming.ofWords words with
    | ok r =>
      simp [haccepted, hshort, hlacks, hunknown, hwords]
      omega
    | error rejection =>
      cases rejection <;> simp [haccepted, hshort, hlacks, hunknown, hwords] <;> omega

/-- The entry of a renaming names the symbol under which it is filed. -/
def Renaming.NamesItsSymbol : Renaming → Prop
  | .className renamed entry => entry.oldName = renamed
  | .field renamed entry => ⟨entry.owner, entry.oldName⟩ = renamed
  | .method renamed entry => ⟨entry.owner, entry.oldName, entry.signature⟩ = renamed
  | .parameters renamed entry => ⟨entry.owner, entry.method, entry.signature⟩ = renamed

/-- What is said by words is filed under the symbol that its entry names. -/
theorem Says.namesItsSymbol {words : List String} {r : Renaming} (h : Says words r) :
    r.NamesItsSymbol := by
  cases h <;> rfl

/-- The renamings of lines name the symbols that they are filed under. -/
theorem Renaming.namesItsSymbol_of_mem_ofLines {lines : List (List String)} {r : Renaming}
    (h : r ∈ ofLines lines) : r.NamesItsSymbol := by
  obtain ⟨words, -, hr⟩ := List.mem_filterMap.1 h
  cases hwords : ofWords words with
  | error rejection =>
    rw [hwords] at hr
    cases hr
  | ok said =>
    rw [hwords] at hr
    cases hr
    exact (ofWords_eq_ok_iff.1 hwords).namesItsSymbol

/-- An entry of a table that is filled with renamings of lines is that of a renaming, which names its
symbol. -/
theorem Renaming.exists_of_mem_entries {κ ε : Type} [DecidableEq κ] {lines : List (List String)}
    {select : Renaming → Option (κ × ε)} {table : Table κ ε}
    (hfilled : table.FilledBy ((ofLines lines).filterMap select)) {filed : κ × ε}
    (hfiled : filed ∈ table.entries) : ∃ r, select r = some filed ∧ r.NamesItsSymbol := by
  obtain ⟨r, hr, hentry⟩ := List.mem_filterMap.1 (hfilled.subset hfiled)
  exact ⟨r, hentry, namesItsSymbol_of_mem_ofLines hr⟩

/-- The tables of a text are those of its lines, taken one after the other. -/
theorem ofText_eq (text : String) :
    ofText text = (Text.lines text).foldl Tables.addLine .empty :=
  (List.foldl_hom Progress.tables fun _ _ => rfl).symm

/-- The lines of a text that are too short, or rename a method without a new name, are counted as
skipped, those with an unknown tag as unrecognized, and all others are accepted. What the accepted
lines say are some renamings, one for each line and no others, and the four tables are filled with
the entries of these in order: each symbol stands once, in the place of its first line, and looking
it up gives the entry of its last line, or nothing if no line renames it. Every entry names the
symbol under which it stands. -/
theorem ofText_filled_by_accepted_lines (text : String) :
    let tables := ofText text
    let lines := (Text.lines text).map Text.words
    tables.skipped = lines.countP IsShort + lines.countP LacksNewName ∧
    tables.unrecognized = lines.countP IsUnknown ∧
    lines.length = tables.skipped + tables.unrecognized + lines.countP IsAccepted ∧
    (∃ renamings : List Renaming,
      (∀ said, List.Forall₂ Says (lines.filter IsAccepted) said ↔ said = renamings) ∧
      tables.classes.FilledBy (renamings.filterMap Renaming.classEntry?) ∧
      tables.fields.FilledBy (renamings.filterMap Renaming.fieldEntry?) ∧
      tables.methods.FilledBy (renamings.filterMap Renaming.methodEntry?) ∧
      tables.parameters.FilledBy (renamings.filterMap Renaming.parametersEntry?)) ∧
    (∀ filed ∈ tables.classes.entries, filed.2.oldName = filed.1) ∧
    (∀ filed ∈ tables.fields.entries, ⟨filed.2.owner, filed.2.oldName⟩ = filed.1) ∧
    (∀ filed ∈ tables.methods.entries,
      ⟨filed.2.owner, filed.2.oldName, filed.2.signature⟩ = filed.1) ∧
    ∀ filed ∈ tables.parameters.entries,
      ⟨filed.2.owner, filed.2.method, filed.2.signature⟩ = filed.1 := by
  intro tables lines
  have htables : tables = lines.foldl Tables.addWords .empty := by
    rw [List.foldl_map]
    exact ofText_eq text
  rw [Tables.foldl_addWords] at htables
  have hskipped : tables.skipped = lines.countP IsShort + lines.countP LacksNewName := by
    rw [htables]
    simp [Tables.empty]
  have hunrecognized : tables.unrecognized = lines.countP IsUnknown := by
    rw [htables]
    simp [Tables.empty]
  have hclasses : tables.classes.FilledBy
      ((Renaming.ofLines lines).filterMap Renaming.classEntry?) := by
    rw [htables]
    exact Table.filledBy_insertAll _
  have hfields : tables.fields.FilledBy
      ((Renaming.ofLines lines).filterMap Renaming.fieldEntry?) := by
    rw [htables]
    exact Table.filledBy_insertAll _
  have hmethods : tables.methods.FilledBy
      ((Renaming.ofLines lines).filterMap Renaming.methodEntry?) := by
    rw [htables]
    exact Table.filledBy_insertAll _
  have hparameters : tables.parameters.FilledBy
      ((Renaming.ofLines lines).filterMap Renaming.parametersEntry?) := by
    rw [htables]
    exact Table.filledBy_insertAll _
  refine ⟨hskipped, hunrecognized, ?_,
    ⟨Renaming.ofLines lines, fun _ => forall₂_says_iff, hclasses, hfields, hmethods, hparameters⟩,
    ?_, ?_, ?_, ?_⟩
  · rw [hskipped, hunrecognized]
    exact length_eq_sorts lines
  · intro filed hfiled
    obtain ⟨r, hentry, hnames⟩ := Renaming.exists_of_mem_entries hclasses hfiled
    cases r <;> cases hentry
    exact hnames
  · intro filed hfiled
    obtain ⟨r, hentry, hnames⟩ := Renaming.exists_of_mem_entries hfields hfiled
    cases r <;> cases hentry
    exact hnames
  · intro filed hfiled
    obtain ⟨r, hentry, hnames⟩ := Renaming.exists_of_mem_entries hmethods hfiled
    cases r <;> cases hentry
    exact hnames
  · intro filed hfiled
    obtain ⟨r, hentry, hnames⟩ := Renaming.exists_of_mem_entries hparameters hfiled
    cases r <;> cases hentry
    exact hnames

end SymbolRanges.Rename

import SymbolRanges.Extraction.File
import SymbolRanges.Proofs.Rename.Contents

/-!
# Written rename tables

Entries of a rename table are written one to a line, with slashes in the path of a symbol where its
owner has dots. Reading what was written gives the entries back: a path belongs to the symbol that
it was made from (`Member.hasPath_path`), a line says what its entry says (`Entry.says_words`), and
so the tables are filled with the entries in their order: `ofText_undoes_writing`.
-/

set_option autoImplicit false

namespace SymbolRanges.Rename

open Text (IsWord)

/-! ### Paths -/

/-- A name with slashes for dots. -/
def slashed (name : String) : String := name.map fun c => if c = '.' then '/' else c

/-- The path of a symbol: its owner with slashes for dots, a slash and its name, or its name alone
where it has no owner. -/
def Member.path (m : Member) : String :=
  if m.owner = "" then m.name else slashed m.owner ++ "/" ++ m.name

/-- The pieces of a slashed name, with dots between them, are the name. -/
theorem intercalate_pieces_slashed {name : String} (h : '/' ∉ name.toList) :
    ['.'].intercalate (Text.pieces (· == '/') (slashed name).toList) = name.toList := by
  -- the pieces hold no slash, so putting dots back for slashes changes the separators only
  let dotted (c : Char) : Char := if c = '/' then '.' else c
  have hpieces : (Text.pieces (· == '/') (slashed name).toList).map (List.map dotted) =
      Text.pieces (· == '/') (slashed name).toList := by
    refine (List.map_congr_left fun piece hpiece => ?_).trans (List.map_id _)
    have hslash : '/' ∉ piece := Text.notMem_of_mem_pieces '/' hpiece
    refine (List.map_congr_left fun c hc => ?_).trans (List.map_id piece)
    have hc' : c ≠ '/' := fun heq => hslash (heq ▸ hc)
    exact if_neg hc'
  have hback : (slashed name).toList.map dotted = name.toList := by
    rw [slashed, String.toList_map, List.map_map]
    refine (List.map_congr_left fun c hc => ?_).trans (List.map_id _)
    have hc' : c ≠ '/' := fun heq => h (heq ▸ hc)
    by_cases hdot : c = '.'
    · simp [dotted, hdot]
    · simp [dotted, hdot, hc']
  calc ['.'].intercalate (Text.pieces (· == '/') (slashed name).toList)
      = (['/'].intercalate (Text.pieces (· == '/') (slashed name).toList)).map dotted := by
        rw [Text.map_intercalate, hpieces]
        rfl
    _ = name.toList := by rw [Text.intercalate_pieces, hback]

/-- A symbol has the path that is made for it, if nothing in it is taken for a separator. -/
theorem Member.hasPath_path {m : Member} (howner : '/' ∉ m.owner.toList)
    (hname : '/' ∉ m.name.toList) : m.HasPath m.path := by
  by_cases hempty : m.owner = ""
  · refine ⟨[], by simpa using hname, ?_, hempty⟩
    rw [path, if_pos hempty]
    rfl
  · let outer := (Text.pieces (· == '/') (slashed m.owner).toList).map String.ofList
    have htexts : outer.map String.toList = Text.pieces (· == '/') (slashed m.owner).toList := by
      simp only [outer, List.map_map, String.toList_comp_ofList, List.map_id]
    have hslashed : "/".intercalate outer = slashed m.owner := by
      rw [← String.toList_inj, String.toList_intercalate, htexts]
      exact Text.intercalate_pieces '/' _
    have hne : outer ≠ [] := by simp [outer]
    refine ⟨outer, ?_, ?_, ?_⟩
    · intro segment hsegment
      rcases List.mem_append.1 hsegment with hsegment | hsegment
      · have hpiece := List.mem_map_of_mem (f := String.toList) hsegment
        rw [htexts] at hpiece
        exact Text.notMem_of_mem_pieces '/' hpiece
      · rw [List.mem_singleton.1 hsegment]
        exact hname
    · rw [path, if_neg hempty, String.intercalate_append_of_ne_nil hne (by simp), hslashed,
        String.intercalate_singleton]
    · rw [← String.toList_inj, String.toList_intercalate, htexts]
      exact (intercalate_pieces_slashed howner).symm

/-! ### Entries -/

/-- An entry of a rename table. -/
inductive Entry where
  /-- A class is a member of its package; in the default package its owner is empty. -/
  | className (renamed : Member) (newName : String)
  | field (renamed : Member) (newName : String)
  | method (renamed : Method) (newName : String)
  | parameters (renamed : Method) (names : List String)
  deriving DecidableEq

/-- A word without slashes. -/
def IsName (text : String) : Prop := IsWord text ∧ '/' ∉ text.toList

instance : DecidablePred IsName := fun text =>
  inferInstanceAs (Decidable (IsWord text ∧ '/' ∉ text.toList))

/-- A method without its descriptor. -/
def Method.member (m : Method) : Member := ⟨m.owner, m.name⟩

namespace Entry

/-- The words of the line of an entry. -/
def words : Entry → List String
  | className renamed newName => ["CL:", renamed.path, newName]
  | field renamed newName => ["FD:", renamed.path, newName]
  | method renamed newName => ["MD:", renamed.member.path, renamed.signature, newName]
  | parameters renamed names => "PA:" :: renamed.member.path :: renamed.signature :: names

def line (e : Entry) : String := " ".intercalate e.words

/-- Whether an entry can be written: a descriptor and the new names of parameters are words, and the
other names are words without slashes. -/
def Writable : Entry → Prop
  | className renamed newName =>
    (renamed.owner = "" ∨ IsName renamed.owner) ∧ IsName renamed.name ∧ IsName newName
  | field renamed newName => IsName renamed.owner ∧ IsName renamed.name ∧ IsName newName
  | method renamed newName =>
    IsName renamed.owner ∧ IsName renamed.name ∧ IsWord renamed.signature ∧ IsName newName
  | parameters renamed names =>
    IsName renamed.owner ∧ IsName renamed.name ∧ IsWord renamed.signature ∧
      ∀ name ∈ names, IsWord name

instance : DecidablePred Writable
  | className renamed newName => inferInstanceAs (Decidable
      ((renamed.owner = "" ∨ IsName renamed.owner) ∧ IsName renamed.name ∧ IsName newName))
  | field renamed newName => inferInstanceAs (Decidable
      (IsName renamed.owner ∧ IsName renamed.name ∧ IsName newName))
  | method renamed newName => inferInstanceAs (Decidable
      (IsName renamed.owner ∧ IsName renamed.name ∧ IsWord renamed.signature ∧ IsName newName))
  | parameters renamed names => inferInstanceAs (Decidable
      (IsName renamed.owner ∧ IsName renamed.name ∧ IsWord renamed.signature ∧
        ∀ name ∈ names, IsWord name))

/-- What an entry renames, and to what: a class goes by its qualified name. -/
def content : Entry → Renaming
  | className renamed newName => .className renamed.className ⟨renamed.className, newName⟩
  | field renamed newName => .field renamed ⟨renamed.owner, renamed.name, newName⟩
  | method renamed newName =>
    .method renamed ⟨renamed.owner, renamed.name, renamed.signature, newName⟩
  | parameters renamed names =>
    .parameters renamed ⟨renamed.owner, renamed.name, renamed.signature, names⟩

end Entry

/-- The text of entries: a line for each, and line feeds between them. -/
def written (entries : List Entry) : String := "\n".intercalate (entries.map Entry.line)

/-! ### Reading an entry back -/

/-- The path of a symbol with word-like names is a word. -/
theorem Member.isWord_path {m : Member} (howner : m.owner = "" ∨ IsName m.owner)
    (hname : IsName m.name) : IsWord m.path := by
  by_cases hempty : m.owner = ""
  · rw [path, if_pos hempty]
    exact hname.1
  · have hplain : ∀ c ∈ m.owner.toList, Text.isBlank c = false :=
      (howner.resolve_left hempty).1.2
    have htext : m.path.toList = (slashed m.owner).toList ++ '/' :: m.name.toList := by
      rw [path, if_neg hempty]
      simp
    refine ⟨?_, ?_⟩
    · rw [← String.toList_inj.ne, htext]
      simp
    · intro c hc
      rw [htext, List.mem_append, List.mem_cons, slashed, String.toList_map, List.mem_map] at hc
      rcases hc with ⟨d, hd, rfl⟩ | rfl | hc
      · split
        · decide
        · exact hplain d hd
      · decide
      · exact hname.1.2 c hc

namespace Entry

/-- The words of an entry that can be written are words. -/
theorem isWord_of_mem_words {e : Entry} (h : e.Writable) : ∀ w ∈ e.words, IsWord w := by
  cases e with
  | className renamed newName =>
    obtain ⟨howner, hname, hnew⟩ := h
    simp only [words, List.forall_mem_cons, List.not_mem_nil, false_imp_iff, implies_true, and_true]
    exact ⟨by decide, Member.isWord_path howner hname, hnew.1⟩
  | field renamed newName =>
    obtain ⟨howner, hname, hnew⟩ := h
    simp only [words, List.forall_mem_cons, List.not_mem_nil, false_imp_iff, implies_true, and_true]
    exact ⟨by decide, Member.isWord_path (.inr howner) hname, hnew.1⟩
  | method renamed newName =>
    obtain ⟨howner, hname, hsignature, hnew⟩ := h
    simp only [words, List.forall_mem_cons, List.not_mem_nil, false_imp_iff, implies_true, and_true]
    exact ⟨by decide, Member.isWord_path (.inr howner) hname, hsignature, hnew.1⟩
  | parameters renamed names =>
    obtain ⟨howner, hname, hsignature, hnames⟩ := h
    simp only [words, List.forall_mem_cons]
    exact ⟨by decide, Member.isWord_path (.inr howner) hname, hsignature, hnames⟩

/-- The line of an entry is read as its words. -/
theorem words_line {e : Entry} (h : e.Writable) : Text.words e.line = e.words :=
  Text.words_intercalate (isWord_of_mem_words h)

/-- The words of an entry say what the entry says. -/
theorem says_words {e : Entry} (h : e.Writable) : Says e.words e.content := by
  have hnew {newName : String} (hname : IsName newName) :
      (⟨"", newName⟩ : Member).HasPath newName :=
    Member.hasPath_path (m := ⟨"", newName⟩) (by simp) hname.2
  cases e with
  | className renamed newName =>
    obtain ⟨howner, hname, hnewName⟩ := h
    have hslash : '/' ∉ renamed.owner.toList := by
      rcases howner with hempty | howner
      · simp [hempty]
      · exact howner.2
    exact .className (Member.hasPath_path hslash hname.2) (hnew hnewName) rfl
  | field renamed newName =>
    obtain ⟨howner, hname, hnewName⟩ := h
    exact .field (Member.hasPath_path howner.2 hname.2) (hnew hnewName)
  | method renamed newName =>
    obtain ⟨howner, hname, -, hnewName⟩ := h
    exact .method (Member.hasPath_path (m := renamed.member) howner.2 hname.2) (hnew hnewName)
  | parameters renamed names =>
    obtain ⟨howner, hname, -, -⟩ := h
    exact .parameters (Member.hasPath_path (m := renamed.member) howner.2 hname.2)

/-- The words of an entry are read as what the entry says. -/
theorem ofWords_words {e : Entry} (h : e.Writable) : Renaming.ofWords e.words = .ok e.content :=
  ofWords_eq_ok_iff.2 (says_words h)

/-- A line of words between blanks holds no line end. -/
theorem notMem_line {e : Entry} (h : e.Writable) {c : Char} (hblank : Text.isBlank c = true)
    (hne : c ≠ ' ') : c ∉ e.line.toList := by
  rw [line, String.toList_intercalate]
  intro hc
  rcases Text.mem_of_mem_intercalate hc with hspace | ⟨word, hword, hc⟩
  · exact hne (List.mem_singleton.1 hspace)
  · obtain ⟨w, hw, rfl⟩ := List.mem_map.1 hword
    rw [(isWord_of_mem_words h w hw).2 c hc] at hblank
    cases hblank

/-- The line of an entry is not empty. -/
theorem line_ne_empty {e : Entry} (h : e.Writable) : e.line ≠ "" := by
  intro hempty
  have hwords := words_line h
  rw [hempty] at hwords
  cases e <;> cases hwords

/-- The line of a method's new name is the entry of this method with this name. -/
theorem eq_method_of_methodEntry? {e : Entry} {renamed : Method} {entry : MethodRename}
    (h : e.content.methodEntry? = some (renamed, entry)) : e = .method renamed entry.newName := by
  cases e <;> cases h
  rfl

end Entry

/-! ### Reading a text back -/

section Written

variable {entries : List Entry} (h : ∀ e ∈ entries, e.Writable)

include h

/-- The lines of a written text are read as the words of its entries. -/
theorem words_lines_written :
    (Text.lines (written entries)).map Text.words = entries.map Entry.words := by
  have hlines : Text.lines (written entries) = entries.map Entry.line := by
    refine Text.lines_intercalate ?_ ?_ ?_
    all_goals
      intro l hl
      obtain ⟨e, he, rfl⟩ := List.mem_map.1 hl
    · exact Entry.line_ne_empty (h e he)
    · exact Entry.notMem_line (h e he) (by decide) (by decide)
    · exact Entry.notMem_line (h e he) (by decide) (by decide)
  rw [hlines, List.map_map]
  exact List.map_congr_left fun e he => Entry.words_line (h e he)

/-- The lines of entries hold the renamings of the entries. -/
theorem ofLines_words : Renaming.ofLines (entries.map Entry.words) = entries.map Entry.content := by
  unfold Renaming.ofLines
  rw [List.filterMap_map, ← List.filterMap_eq_map]
  refine List.filterMap_congr fun e he => ?_
  simp [Entry.ofWords_words (h e he), Except.toOption]

/-- No line of a written text is skipped or unknown. -/
theorem countP_words_eq_zero :
    (entries.map Entry.words).countP IsShort = 0 ∧
    (entries.map Entry.words).countP LacksNewName = 0 ∧
    (entries.map Entry.words).countP IsUnknown = 0 := by
  have hsorts (e : Entry) (he : e ∈ entries) :
      ¬ IsShort e.words ∧ ¬ LacksNewName e.words ∧ ¬ IsUnknown e.words := by
    obtain ⟨-, hshort, hlacks, hunknown⟩ := sort_iff e.words
    simp [hshort, hlacks, hunknown, Entry.ofWords_words (h e he)]
  simp only [List.countP_eq_zero, List.forall_mem_map, decide_eq_true_eq]
  exact ⟨fun e he => (hsorts e he).1, fun e he => (hsorts e he).2.1,
    fun e he => (hsorts e he).2.2⟩

/-- The tables of a written text are filled with what its entries say, and no line is counted as
skipped or unrecognized. -/
theorem ofText_written :
    ofText (written entries) =
      { classes := .insertAll ∅ ((entries.map Entry.content).filterMap Renaming.classEntry?)
        fields := .insertAll ∅ ((entries.map Entry.content).filterMap Renaming.fieldEntry?)
        methods := .insertAll ∅ ((entries.map Entry.content).filterMap Renaming.methodEntry?)
        parameters := .insertAll ∅ ((entries.map Entry.content).filterMap Renaming.parametersEntry?)
        skipped := 0
        unrecognized := 0 } := by
  have htables : ofText (written entries) =
      (entries.map Entry.words).foldl Tables.addWords .empty := by
    rw [← words_lines_written h, List.foldl_map]
    exact ofText_eq _
  obtain ⟨hshort, hlacks, hunknown⟩ := countP_words_eq_zero h
  rw [htables, Tables.foldl_addWords, ofLines_words h, hshort, hlacks, hunknown]
  rfl

end Written

/-- The method of an identity. -/
def Method.ofIdentity? : Identity → Option Method
  | .method owner name signature => some ⟨owner, name, signature⟩
  | _ => none

/-- Entries that are written one to a line are read back: no line is skipped or unrecognized, and
each of the four tables is filled with the entries of its kind, so that looking a symbol up gives
what its last entry says. In particular a record of a method, whatever extraction it comes from,
finds the last entry for its owner, name and descriptor. -/
theorem ofText_undoes_writing (entries : List Entry) (h : ∀ e ∈ entries, e.Writable) :
    let tables := ofText (written entries)
    let contents := entries.map Entry.content
    tables.skipped = 0 ∧ tables.unrecognized = 0 ∧
    tables.classes.FilledBy (contents.filterMap Renaming.classEntry?) ∧
    tables.fields.FilledBy (contents.filterMap Renaming.fieldEntry?) ∧
    tables.methods.FilledBy (contents.filterMap Renaming.methodEntry?) ∧
    tables.parameters.FilledBy (contents.filterMap Renaming.parametersEntry?) ∧
    ∀ (r : Record) (owner name signature : String),
      r.identity = .method owner name signature → ∀ before newName after,
      entries = before ++ .method ⟨owner, name, signature⟩ newName :: after →
      (∀ other, .method ⟨owner, name, signature⟩ other ∉ after) →
      (Method.ofIdentity? r.identity).bind tables.methods.find? =
        some ⟨owner, name, signature, newName⟩ := by
  intro tables contents
  have htables : tables = _ := ofText_written h
  have hclasses : tables.classes.FilledBy (contents.filterMap Renaming.classEntry?) := by
    rw [htables]
    exact Table.filledBy_insertAll _
  have hfields : tables.fields.FilledBy (contents.filterMap Renaming.fieldEntry?) := by
    rw [htables]
    exact Table.filledBy_insertAll _
  have hmethods : tables.methods.FilledBy (contents.filterMap Renaming.methodEntry?) := by
    rw [htables]
    exact Table.filledBy_insertAll _
  have hparameters : tables.parameters.FilledBy (contents.filterMap Renaming.parametersEntry?) := by
    rw [htables]
    exact Table.filledBy_insertAll _
  refine ⟨by rw [htables], by rw [htables], hclasses, hfields, hmethods, hparameters, ?_⟩
  intro r owner name signature hidentity before newName after hentries hlast
  have hsplit : contents.filterMap Renaming.methodEntry? =
      (before.map Entry.content).filterMap Renaming.methodEntry? ++
        (⟨owner, name, signature⟩, ⟨owner, name, signature, newName⟩) ::
          (after.map Entry.content).filterMap Renaming.methodEntry? := by
    simp only [contents, hentries, List.map_append, List.map_cons, List.filterMap_append]
    rfl
  rw [hsplit] at hmethods
  rw [hidentity, Method.ofIdentity?, Option.bind_some]
  -- an entry of the table behind this one comes from an entry of the list behind this one
  refine hmethods.find?_of_last ?_
  rw [List.filterMap_map, List.mem_map]
  rintro ⟨⟨key, other⟩, hmem, rfl⟩
  obtain ⟨e, he, hentry⟩ := List.mem_filterMap.1 hmem
  exact hlast other.newName (Entry.eq_method_of_methodEntry? hentry ▸ he)

/-- A method of the default package, renamed twice, whose record finds the second new name, beside
entries of the other kinds. -/
def repeatedEntries : List Entry :=
  [.className ⟨"a.b", "C$D"⟩ "E", .className ⟨"", "C"⟩ "F", .field ⟨"a..b", "x.y"⟩ "z",
    .method ⟨"C", "m", "(La/b/C$D;)V"⟩ "first", .parameters ⟨"C", "m", "(La/b/C$D;)V"⟩ ["p", "q/r"],
    .method ⟨"C", "m", "(La/b/C$D;)V"⟩ "second"]

/-- A class with a method that has a class for its parameter. -/
def repeatedTree : Tree :=
  ⟨⟨0⟩, .sourceFile,
    [.node .classDecl [.token .ident "C", .node .method [.token .ident "m"]]]⟩

def repeatedBindings : Bindings :=
  Bindings.empty.insertMethod (.ofSize 1 1) ⟨[.classType "a.b.C$D" []], .primitive .void⟩

/-- All entries are read back, and the method is found by its record. -/
theorem ofText_undoes_writing_repeated :
    let tables := ofText (written repeatedEntries)
    let e := extract "C.java" repeatedTree repeatedBindings.resolver {}
    (∀ e ∈ repeatedEntries, e.Writable) ∧ tables.skipped = 0 ∧ tables.unrecognized = 0 ∧
    tables.classes.find? "a.b.C$D" = some ⟨"a.b.C$D", "E"⟩ ∧
    tables.classes.find? "C" = some ⟨"C", "F"⟩ ∧
    tables.fields.find? ⟨"a..b", "x.y"⟩ = some ⟨"a..b", "x.y", "z"⟩ ∧
    tables.parameters.find? ⟨"C", "m", "(La/b/C$D;)V"⟩ =
      some ⟨"C", "m", "(La/b/C$D;)V", ["p", "q/r"]⟩ ∧
    ∃ r ∈ e.records, r = ⟨"C.java", 1, 2, .method "C" "m" "(La/b/C$D;)V"⟩ ∧
      (Method.ofIdentity? r.identity).bind tables.methods.find? =
        some ⟨"C", "m", "(La/b/C$D;)V", "second"⟩ := by
  intro tables e
  have hwritable : ∀ e ∈ repeatedEntries, e.Writable := by decide +kernel
  have hrecord : ⟨"C.java", 1, 2, .method "C" "m" "(La/b/C$D;)V"⟩ ∈ e.records := by decide +kernel
  obtain ⟨hskipped, hunrecognized, hclasses, hfields, -, hparameters, hmethod⟩ :=
    ofText_undoes_writing repeatedEntries hwritable
  refine ⟨hwritable, hskipped, hunrecognized, (hclasses.find?_eq _).trans ?_,
    (hclasses.find?_eq _).trans ?_, (hfields.find?_eq _).trans ?_,
    (hparameters.find?_eq _).trans ?_, _, hrecord, rfl, ?_⟩
  · decide +kernel
  · decide +kernel
  · decide +kernel
  · decide +kernel
  · exact hmethod _ _ _ _ rfl (repeatedEntries.take 5) "second" [] rfl
      fun _ => List.not_mem_nil

end SymbolRanges.Rename

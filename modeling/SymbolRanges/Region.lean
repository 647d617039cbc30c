import SymbolRanges.Text.Blank

/-!
# Code regions

Code between two marker comments is injected. A marker is a line comment whose first words are
the comment opener, a tag and a command; the case of the command does not matter.
-/

set_option autoImplicit false

namespace SymbolRanges

/-- Whether code is ordinary or injected. -/
inductive Region where
  | normal
  | injected
  deriving DecidableEq, Repr

instance : Inhabited Region := ⟨.normal⟩

/-- The label of a region. -/
def Region.label : Region → String
  | .normal => "Normal"
  | .injected => "Injected"

/-- Whether two texts are equal but for the case of ASCII letters. -/
def Text.equalIgnoringCase (a b : String) : Bool :=
  decide (a.toList.map Char.toLower = b.toList.map Char.toLower)

namespace Region

/-- What opens a line comment. -/
def commentOpener : String := "//"

/-- The command that opens an injected region. -/
def startCommand : String := "start"

/-- The command that closes an injected region. -/
def endCommand : String := "end"

/-- The region that a command switches to, if it is one. -/
def ofCommand? (command : String) : Option Region :=
  if Text.equalIgnoringCase command startCommand then some .injected
  else if Text.equalIgnoringCase command endCommand then some .normal
  else none

/-- The region that a comment switches to, if it is a marker with an accepted tag. Words after
the command are ignored. -/
def ofComment? (acceptsTag : String → Bool) (comment : String) : Option Region :=
  match Text.words comment with
  | opener :: tag :: command :: _ =>
    if opener = commentOpener ∧ acceptsTag tag = true then ofCommand? command else none
  | _ => none

end Region

end SymbolRanges

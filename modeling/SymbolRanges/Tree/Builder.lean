import SymbolRanges.Text.Word
import SymbolRanges.Tree.Node

/-!
# Building a tree from left to right

A builder takes the tokens of a text in order, with the places where nodes open and close, and
keeps count of the bytes taken so far, in a word. Closing a node gathers what was finished since it
was opened. A builder yields a tree once exactly one node is finished, whatever is still open.
-/

set_option autoImplicit false

namespace SymbolRanges

/-- A node that was opened and not yet closed. -/
structure OpenNode where
  kind : Kind
  /-- What its parent had finished before, newest first. -/
  before : List Element

/-- A tree under construction. -/
structure Builder where
  /-- The open nodes, innermost first. -/
  opened : List OpenNode
  /-- What is finished inside the innermost open node, newest first. -/
  finished : List Element
  /-- The bytes taken so far. -/
  offset : Nat

/-- One step of a construction. -/
inductive BuildStep where
  | startNode (kind : Kind)
  | endNode
  | token (kind : Kind) (text : String)
  /-- Takes an identifier. -/
  | ident (name : String)
  /-- Takes a blank as white space. -/
  | space
  /-- Takes a line feed as white space. -/
  | lineFeed
  deriving DecidableEq

namespace Builder

/-- The builder that has taken nothing. -/
def empty : Builder := ⟨[], [], 0⟩

/-- The number of open nodes. -/
def depth (b : Builder) : Nat := b.opened.length

/-- Opens a node. -/
def openNode (b : Builder) (kind : Kind) : Builder :=
  { b with opened := ⟨kind, b.finished⟩ :: b.opened, finished := [] }

/-- Closes the innermost open node, if there is one. -/
def closeNode? (b : Builder) : Option Builder :=
  match b.opened with
  | [] => none
  | innermost :: outer =>
    some { b with
      opened := outer
      finished := .node innermost.kind b.finished.reverse :: innermost.before }

/-- The span that the next token with a given text takes. -/
def nextSpan (b : Builder) (text : String) : Span := Span.ofSize b.offset text.utf8ByteSize

/-- Takes a token, if the bytes taken with it still fit in a word. -/
def pushToken? (b : Builder) (kind : Kind) (text : String) : Option Builder := do
  let offset ← Word.add? b.offset text.utf8ByteSize
  some { b with finished := .token kind text :: b.finished, offset := offset }

/-- Takes one step. Closing fails when no node is open, and taking a token fails when too many bytes
are taken. -/
def step? (b : Builder) : BuildStep → Option Builder
  | .startNode kind => some (b.openNode kind)
  | .endNode => b.closeNode?
  | .token kind text => b.pushToken? kind text
  | .ident name => b.pushToken? .ident name
  | .space => b.pushToken? .whitespace " "
  | .lineFeed => b.pushToken? .whitespace "\n"

/-- The span that a step returns when it is taken, if it returns one: tokens and identifiers return
where they are, and blanks and line feeds return nothing. -/
def returned? (b : Builder) : BuildStep → Option Span
  | .token _ text => some (b.nextSpan text)
  | .ident name => some (b.nextSpan name)
  | .startNode _ | .endNode | .space | .lineFeed => none

/-- Everything finished at any depth, from left to right, open nodes left out. -/
def allFinished (b : Builder) : List Element :=
  (b.opened.reverse.flatMap fun frame => frame.before.reverse) ++ b.finished.reverse

/-- The tree, if exactly one element is finished and it is a node. -/
def finish? (b : Builder) (id : TreeId) : Option Tree :=
  match b.allFinished with
  | [.node kind children] => some ⟨id, kind, children⟩
  | _ => none

/-- The builder after a sequence of steps, if all of them succeed. -/
def run? (b : Builder) (steps : List BuildStep) : Option Builder :=
  steps.foldlM step? b

end Builder

/-- The tree of a sequence of steps, if they build one. -/
def Tree.ofSteps? (id : TreeId) (steps : List BuildStep) : Option Tree :=
  (Builder.empty.run? steps).bind fun b => b.finish? id

end SymbolRanges

import MacroRegions.Forest.Walk
import MacroRegions.Marker.Basic

/-!
Macro blocks.

A block has a start marker, an end marker and perhaps a problem. The blocks
of a document form a forest: the children of a block are the blocks within
it. Nothing is required of the markers here, so that a forest may also come
from elsewhere than from a text.
-/

namespace MacroRegions

/-- A structural problem of a block or a document. A block is unterminated if it is
open at the end of the text, and out of order if it is open when a block around it is
closed. -/
inductive BlockError where
  | unterminated
  | unmatchedEnd
  | malformedLocationTag
  | outOfOrder
deriving DecidableEq, Repr, Inhabited

namespace BlockError

def all : List BlockError :=
  [unterminated, unmatchedEnd, malformedLocationTag, outOfOrder]

def name : BlockError → String
  | unterminated => "Unterminated"
  | unmatchedEnd => "UnmatchedEnd"
  | malformedLocationTag => "MalformedLocationTag"
  | outOfOrder => "OutOfOrder"

def label : BlockError → String
  | unterminated => "unterminated"
  | unmatchedEnd => "unmatched end"
  | malformedLocationTag => "malformed location tag"
  | outOfOrder => "out of order"

def message : BlockError → String
  | unterminated => "macro block is never closed"
  | unmatchedEnd => "end marker has no matching start marker"
  | malformedLocationTag =>
    "trailing location tag is not `#<line>` or `#<file>#<line>`"
  | outOfOrder => "macro block is still open when its enclosing block is closed"

end BlockError

/-- A macro block without its children. -/
structure Block where
  start : Option Marker
  stop : Option Marker
  error : Option BlockError
deriving DecidableEq, Repr, Inhabited

/-- A row of blocks with all that is within them. -/
abbrev BlockForest := Forest Block

namespace Block

/-- The macro invocation of a block. -/
def body (block : Block) : Option Text :=
  block.start.bind (·.body)

def line (block : Block) : Option Nat :=
  block.start.map (·.line)

/-- The span between the two markers, if they are in order. -/
def contentSpan (block : Block) : Option Span := do
  let start := (← block.start).position.stop.offset
  let stop := (← block.stop).position.start.offset
  if start ≤ stop then some ⟨start, stop⟩ else none

end Block

end MacroRegions

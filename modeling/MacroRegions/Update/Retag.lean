import MacroRegions.Block
import MacroRegions.Log

/-!
Bringing the location tags of one block up to date.

A start marker's tag names the line that the marker is on; a file that the
tag names stays. An end marker never has a line of its own: its tag is that
of its start.
-/

namespace MacroRegions

/-- How location tags are brought up to date, and whether start markers without one get
one. -/
structure UpdateOptions where
  addMissing : Bool
deriving DecidableEq, Repr, Inhabited

namespace Marker

def resolvedTag (options : UpdateOptions) (start : Marker) : Option LocationTag :=
  match start.tag with
  | some tag =>
    if tag.line = start.line then some tag else some { tag with line := start.line }
  | none => if options.addMissing then some (.here start.line) else none

/-- A start marker with the tag that it should have, unless it has it. -/
def retaggedStart? (options : UpdateOptions) (start : Marker) : Option Marker :=
  let tag := start.resolvedTag options
  if tag = start.tag then none else some (start.withTag tag)

/-- The tag that the end marker of a start should have. The end of a start
that stays without a tag still gets one. -/
def stopTag (options : UpdateOptions) (start : Marker) : LocationTag :=
  (start.resolvedTag options).getD (.here start.line)

def retaggedStop? (options : UpdateOptions) (start stop : Marker) : Option Marker :=
  let tag := start.stopTag options
  if stop.tag = some tag then none else some (stop.withTag (some tag))

end Marker

namespace Block

/-- A block with the tags that its markers should have, unless they have them.
A block without a start stays as it is. -/
def retagged? (options : UpdateOptions) (block : Block) : Option Block :=
  match block.start with
  | none => none
  | some start =>
    match start.retaggedStart? options, block.stop.bind (start.retaggedStop? options) with
    | none, none => none
    | newStart, newStop =>
      some { block with
        start := newStart <|> block.start
        stop := newStop <|> block.stop }

def retagEvents (options : UpdateOptions) (block : Block) : List LogEvent :=
  match block.start.bind (·.retaggedStart? options) with
  | some start => [.tagChanged start.line start.tag]
  | none => []

end Block

end MacroRegions

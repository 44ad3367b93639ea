import MacroRegions.Document.Basic
import MacroRegions.Marker.Classification

/-!
Pairing markers into blocks.

Markers are taken one after the other, and what is open is kept in one list
for both families of markers. A start opens a block within the innermost open
block of either family. An end closes the innermost open entry of its own
family; the blocks that were opened since are of the other family and are
ended with it, so that every block ends within the block around it. Plain
regions pair with region ends but hold nothing.
-/

namespace MacroRegions

/-- What pairing looks at: a marker, or the start of a plain region. -/
inductive PairingItem where
  | plainRegion
  | marker (marker : Marker)
deriving DecidableEq, Repr, Inhabited

def PairingItem.ofCandidate? (candidate : Candidate) : Option PairingItem :=
  if candidate.kind = .plainRegionStart then
    some .plainRegion
  else
    candidate.classify?.map .marker

/-- A block that is still open, with the finished blocks within it. -/
structure OpenBlock where
  start : Marker
  error : Option BlockError
  children : BlockForest
deriving DecidableEq, Repr, Inhabited

/-- An entry of the list of what is open. -/
inductive OpenEntry where
  | plainRegion
  | block (block : OpenBlock)
deriving DecidableEq, Repr, Inhabited

namespace OpenEntry

/-- The family of the end that closes an entry. -/
def family : OpenEntry → MarkerFamily
  | plainRegion => .region
  | block opened => opened.start.family

def block? : OpenEntry → Option OpenBlock
  | plainRegion => none
  | block opened => some opened

end OpenEntry

namespace OpenBlock

/-- The finished block, with `more` behind its children. -/
def finish
    (block : OpenBlock)
    (stop : Option Marker)
    (error : Option BlockError)
    (more : BlockForest) :
    BlockForest :=
  Forest.single ⟨some block.start, stop, error⟩ (block.children ++ more)

end OpenBlock

/-- The blocks that are open, the innermost entry first, and those that are finished and
in no open block. -/
structure Nesting where
  entries : List OpenEntry
  finished : BlockForest
deriving DecidableEq, Repr, Inhabited

namespace Nesting

def empty : Nesting := ⟨[], .nil⟩

/-- Puts finished blocks behind the others of the innermost open block. -/
def attach (done : BlockForest) : List OpenEntry → BlockForest → Nesting
  | [], finished => ⟨[], finished ++ done⟩
  | .plainRegion :: rest, finished =>
    let nesting := attach done rest finished
    ⟨.plainRegion :: nesting.entries, nesting.finished⟩
  | .block block :: rest, finished =>
    ⟨.block { block with children := block.children ++ done } :: rest, finished⟩

/-- Ends every block of a list of entries without an end marker, each within
the next one. `inner` is what is finished within the first of them. -/
def collapse
    (error : BlockError)
    (inner : BlockForest) :
    List OpenEntry → BlockForest
  | [] => inner
  | .plainRegion :: rest => collapse error inner rest
  | .block block :: rest => collapse error (block.finish none (some error) inner) rest

/-- The starts of the blocks of a list of entries, the outermost first, each
reported as `kind`. -/
def report (kind : BlockError) (entries : List OpenEntry) : List ParseProblem :=
  (entries.filterMap OpenEntry.block?).reverse.map fun block =>
    .ofMarker kind block.start

/-- The problem with a marker's location tag, when such problems are asked
for. -/
def tagProblem (strict : Bool) (marker : Marker) : List ParseProblem :=
  if strict && marker.malformedTag then
    [.ofMarker .malformedLocationTag marker]
  else
    []

/-- The error of a block that has a marker with `problems` more. An error that
is there already stays. -/
def errorWith (error : Option BlockError) (problems : List ParseProblem) : Option BlockError :=
  error <|> problems.head?.map (·.kind)

def openBlock (strict : Bool) (nesting : Nesting) (start : Marker) :
    Nesting × List ParseProblem :=
  let problems := tagProblem strict start
  ({ nesting with
      entries := .block ⟨start, errorWith none problems, .nil⟩ :: nesting.entries },
    problems)

/-- Closes the innermost open entry of the family of `stop`. -/
def close (strict : Bool) (nesting : Nesting) (stop : Marker) :
    Nesting × List ParseProblem :=
  let inner := nesting.entries.takeWhile (·.family ≠ stop.family)
  match nesting.entries.dropWhile (·.family ≠ stop.family) with
  | [] => (nesting, [.ofMarker .unmatchedEnd stop])
  | .plainRegion :: outer => ({ nesting with entries := inner ++ outer }, [])
  | .block block :: outer =>
    let problems := tagProblem strict stop
    let done :=
      block.finish (some stop) (errorWith block.error problems)
        (collapse .outOfOrder .nil inner)
    let attached := attach done outer nesting.finished
    ({ attached with
        entries := inner.filter (·.block?.isNone) ++ attached.entries },
      report .outOfOrder inner ++ problems)

def step (strict : Bool) (nesting : Nesting) : PairingItem → Nesting × List ParseProblem
  | .plainRegion => ({ nesting with entries := .plainRegion :: nesting.entries }, [])
  | .marker marker =>
    match marker.keyword with
    | .macroStart => nesting.openBlock strict marker
    | .macroEnd => nesting.close strict marker

/-- Takes all items, and gives the problems that were found with each. -/
def run (strict : Bool) (nesting : Nesting) :
    List PairingItem → Nesting × List (PairingItem × List ParseProblem)
  | [] => (nesting, [])
  | item :: rest =>
    let (next, problems) := nesting.step strict item
    let (last, turns) := next.run strict rest
    (last, (item, problems) :: turns)

/-- The blocks at the end of the text, and the problems with those that are
still open. -/
def finish (nesting : Nesting) : BlockForest × List ParseProblem :=
  (nesting.finished ++ collapse .unterminated .nil nesting.entries,
    report .unterminated nesting.entries)

end Nesting

end MacroRegions

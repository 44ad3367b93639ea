import MacroRegions.Marker.Candidate

/-!
Scans: candidates one at a time, with the possibility to skip ahead.

A scan holds the trivia that it has not looked at yet. It can be resumed at
an offset; the place to resume is found by halving, which needs the trivia to
be in order to be right.
-/

namespace MacroRegions

/-- Number of leading items that pass `test`, found by halving. The window
begins at `base` and is `size` items wide; the answer is right if the items
that pass come first. -/
def partitionPointFrom
    (test : Nat → Bool)
    (base size : Nat) :
    Nat :=
  if 1 < size then
    let half := size / 2
    if test (base + half) then
      partitionPointFrom test (base + half) (size - half)
    else
      partitionPointFrom test base (size - half)
  else if test base then
    base + size
  else
    base
termination_by size

structure Scan where
  source : Source
  pending : List Trivia

namespace Scan

def candidates (scan : Scan) : List Candidate :=
  MacroRegions.candidates scan.source scan.pending

/-- The first candidate in a list of trivia, and the trivia behind it. -/
def nextIn? (source : Source) : List Trivia → Option (Candidate × List Trivia)
  | [] => none
  | item :: rest =>
    match Candidate.ofTrivia? source item with
    | some candidate => some (candidate, rest)
    | none => nextIn? source rest

def next? (scan : Scan) : Option (Candidate × Scan) :=
  (nextIn? scan.source scan.pending).map fun (candidate, rest) =>
    (candidate, { scan with pending := rest })

/-- The scan behind the next `count` candidates, or at the end if there are
fewer. -/
def skip (scan : Scan) : (count : Nat) → Scan
  | 0 => scan
  | count + 1 =>
    match scan.next? with
    | some (_, rest) => rest.skip count
    | none => { scan with pending := [] }

/-- The scan without the trivia that starts before `offset`. -/
def startingAt (scan : Scan) (offset : Nat) : Scan :=
  let starts := (scan.pending.map (·.span.start)).toArray
  let passes := fun index => (starts[index]?).any (· < offset)
  { scan with
    pending := scan.pending.drop (partitionPointFrom passes 0 scan.pending.length) }

end Scan

end MacroRegions

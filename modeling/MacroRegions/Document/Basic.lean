import MacroRegions.Block

/-!
Documents: the macro blocks of one text and what went wrong in pairing its
markers.
-/

namespace MacroRegions

/-- A problem found in pairing markers. It never stops the pairing. -/
structure ParseProblem where
  kind : BlockError
  form : MarkerForm
  position : Position
deriving DecidableEq, Repr, Inhabited

namespace ParseProblem

def line (problem : ParseProblem) : Nat :=
  problem.position.start.line

def column (problem : ParseProblem) : Nat :=
  problem.position.start.column

def message (problem : ParseProblem) : String :=
  problem.kind.message

def ofMarker (kind : BlockError) (marker : Marker) : ParseProblem :=
  ⟨kind, marker.form, marker.position⟩

end ParseProblem

/-- The macro blocks of one text, and the problems in the order in which they were
found. -/
structure Document where
  filePath : Text
  tree : BlockForest
  problems : List ParseProblem
deriving DecidableEq, Repr, Inhabited

namespace Document

/-- All blocks, parents before their children. -/
def blocks (document : Document) : List Block :=
  (Walk.ofForest document.tree).toList

theorem blocks_eq_toList (document : Document) : document.blocks = document.tree.toList :=
  Walk.toList_ofForest document.tree

def hasErrors (document : Document) : Bool :=
  !document.problems.isEmpty

/-- Whether a block's start carries a location tag that does not agree with
the place of the start in `filePath`. -/
def isStale (filePath : Text) (block : Block) : Bool :=
  block.start.any fun start =>
    start.tag.any fun tag => !tag.agreesWith start.line (some filePath)

/-- The blocks whose location tags do not agree with where they are. -/
def staleBlocks (document : Document) : List Block :=
  document.blocks.filter (isStale document.filePath)

/-- Where the stale blocks are among all blocks, counted from zero. -/
def staleIndexes (document : Document) : List Nat :=
  (document.blocks.zipIdx.filter fun (block, _) => isStale document.filePath block).map (·.2)

end Document

end MacroRegions

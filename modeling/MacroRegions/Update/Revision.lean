import MacroRegions.Update.Retag

/-!
Bringing the location tags of a forest up to date.

A revised forest has the shape of the one it was made from. Each node of it
is either the very node of the old forest or a new one; a new node is made
only where something changed, and on the way from there to the top.
-/

namespace MacroRegions

/-- A node of a revised forest, and whether it is the node of the old forest with
everything below it. -/
structure Revised where
  block : Block
  shared : Bool
deriving DecidableEq, Repr, Inhabited

namespace BlockForest

def keep (forest : BlockForest) : Forest Revised :=
  forest.map (⟨·, true⟩)

theorem map_block_keep (forest : BlockForest) : (keep forest).map (·.block) = forest := by
  induction forest with
  | nil => rfl
  | node block children siblings childrenHypothesis siblingsHypothesis =>
      simp only [keep, Forest.map] at childrenHypothesis siblingsHypothesis ⊢
      rw [childrenHypothesis, siblingsHypothesis]

/-- The forest with new nodes where tags had to change, or `none` if none had
to. -/
def revise? (options : UpdateOptions) : BlockForest → Option (Forest Revised)
  | .nil => none
  | .node block children siblings =>
    let newBlock := block.retagged? options
    let newChildren := revise? options children
    let newSiblings := revise? options siblings
    if newBlock.isNone && newChildren.isNone && newSiblings.isNone then
      none
    else
      some (.node
        ⟨newBlock.getD block, newBlock.isNone && newChildren.isNone⟩
        (newChildren.getD (keep children))
        (newSiblings.getD (keep siblings)))

end BlockForest

structure TagUpdate where
  modified : Bool
  revision : Forest Revised
deriving DecidableEq, Repr, Inhabited

namespace TagUpdate

def tree (update : TagUpdate) : BlockForest :=
  update.revision.map (·.block)

end TagUpdate

namespace BlockForest

/-- Brings the location tags of a forest up to date. -/
def update (options : UpdateOptions) (forest : BlockForest) : TagUpdate :=
  match revise? options forest with
  | some revision => ⟨true, revision⟩
  | none => ⟨false, keep forest⟩

def updateEvents (options : UpdateOptions) (forest : BlockForest) : List LogEvent :=
  forest.toList.flatMap (·.retagEvents options)

end BlockForest

end MacroRegions

import MacroRegions.Proofs.Update.Tree

/-!
What an updated forest shares with the old one.

A revision is told by one equation a node: the node is new if a marker of its block
changes or if something below it does. All other nodes are those of the old forest.
-/

namespace MacroRegions

theorem Marker.withTag_eq_self_iff {marker : Marker} {tag : Option LocationTag} :
    marker.withTag tag = marker ↔ tag = marker.tag := by
  constructor
  · intro same
    exact congrArg Marker.tag same
  · exact Marker.withTag_tag_of_eq

namespace Block

def SameMarkers (block other : Block) : Prop :=
  block.start = other.start ∧ block.stop = other.stop

private theorem error_updated (options : UpdateOptions) (block : Block) :
    (block.updated options).error = block.error := by
  cases startEq : block.start with
  | none => rw [updated_of_start_eq_none options startEq]
  | some start => rw [updated_eq options startEq]

/-- A block is as it should be when an update leaves its markers alone. -/
theorem retagged?_eq_none_iff_sameMarkers {options : UpdateOptions} {block : Block} :
    block.retagged? options = none ↔ block.SameMarkers (block.updated options) := by
  constructor
  · intro current
    rw [updated, current, Option.getD_none]
    exact ⟨rfl, rfl⟩
  · intro same
    rw [retagged?_eq_none_iff]
    intro start startEq
    rw [updated_eq options startEq] at same
    obtain ⟨sameStart, sameStop⟩ := same
    rw [startEq, Option.some.injEq, eq_comm, Marker.withTag_eq_self_iff] at sameStart
    refine ⟨sameStart, ?_⟩
    intro stop stopEq
    rw [stopEq, Option.map_some, Option.some.injEq, eq_comm, Marker.withTag_eq_self_iff]
      at sameStop
    exact sameStop.symm

theorem SameMarkers.eq
    {block other : Block}
    (same : block.SameMarkers other)
    (sameError : block.error = other.error) :
    block = other := by
  cases block
  cases other
  obtain ⟨sameStart, sameStop⟩ := same
  rw [mk.injEq]
  exact ⟨sameStart, sameStop, sameError⟩

theorem retagged?_eq_none_iff_updated {options : UpdateOptions} {block : Block} :
    block.retagged? options = none ↔ block.updated options = block := by
  rw [retagged?_eq_none_iff_sameMarkers]
  constructor
  · intro same
    exact (same.eq (block.error_updated options).symm).symm
  · intro same
    rw [same]
    exact ⟨rfl, rfl⟩

end Block

private theorem Forest.zip_map_right
    {α β γ : Type}
    (f : β → γ)
    (left : Forest α)
    (right : Forest β) :
    left.zip (right.map f) = (left.zip right).map fun pair => (pair.1, f pair.2) := by
  induction left generalizing right with
  | nil => rfl
  | node value children siblings childrenHypothesis siblingsHypothesis =>
      cases right with
      | nil => rfl
      | node other children' siblings' =>
          simp [Forest.map, Forest.zip, childrenHypothesis, siblingsHypothesis]

namespace BlockForest

variable {options : UpdateOptions}

private theorem revision_update (options : UpdateOptions) (forest : BlockForest) :
    (update options forest).revision = (revise? options forest).getD (keep forest) := by
  rw [update]
  cases revise? options forest <;> rfl

private theorem revision_update_of_current
    {forest : BlockForest}
    (current : (update options forest).modified = false) :
    (update options forest).revision = keep forest := by
  rw [modified_update_eq_false_iff, ← revise?_eq_none_iff] at current
  rw [revision_update, current, Option.getD_none]

/-- The nodes of a revision are revised each on its own; a node is shared if
nothing changes in it or below it. -/
theorem revision_update_node
    (options : UpdateOptions)
    (block : Block)
    (children siblings : BlockForest) :
    (update options (.node block children siblings)).revision =
      .node
        ⟨block.updated options,
          (block.retagged? options).isNone && !(update options children).modified⟩
        (update options children).revision
        (update options siblings).revision := by
  simp only [revision_update, revise?, Block.updated]
  cases here : block.retagged? options <;>
    cases within : revise? options children <;>
    cases beside : revise? options siblings <;>
    simp [keep, update, within, Forest.map]

/-- A forest is not modified if every marker is that of the block at the same
place. -/
theorem modified_update_eq_false_iff_zip {forest : BlockForest} :
    (update options forest).modified = false ↔
      ∀ pair ∈ forest.zip (update options forest).revision,
        pair.1.SameMarkers pair.2.block := by
  have places :
      (forest.zip (update options forest).revision).map (fun pair => (pair.1, pair.2.block)) =
        forest.toList.map fun block => (block, block.updated options) := by
    rw [← Forest.zip_map_right, ← Forest.zip_map, ← tree_update, TagUpdate.tree]
  have pairwise :
      (∀ pair ∈ forest.zip (update options forest).revision,
          pair.1.SameMarkers pair.2.block) ↔
        ∀ pair ∈ forest.toList.map fun block => (block, block.updated options),
          pair.1.SameMarkers pair.2 := by
    rw [← places, List.forall_mem_map]
  rw [pairwise, modified_update_eq_false_iff]
  simp [Block.retagged?_eq_none_iff_sameMarkers]

/-- A node is shared exactly if no marker changes in it or below it, and then
it is the old node with all that is below that one. -/
structure SharesNode
    (block : Block)
    (children : BlockForest)
    (revised : Revised)
    (revisedChildren : Forest Revised) :
    Prop where
  shared_iff :
    revised.shared = true ↔
      block.SameMarkers revised.block ∧
        ∀ pair ∈ children.zip revisedChildren, pair.1.SameMarkers pair.2.block
  kept :
    revised.shared = true → revised.block = block ∧ revisedChildren = keep children

/-- A revision has the shape of a forest, and shares exactly the nodes in and
below which no marker changes. -/
inductive SharesExactly : BlockForest → Forest Revised → Prop where
  | nil : SharesExactly .nil .nil
  | node
      (block : Block)
      (children siblings : BlockForest)
      (revised : Revised)
      (revisedChildren revisedSiblings : Forest Revised)
      (own : SharesNode block children revised revisedChildren)
      (within : SharesExactly children revisedChildren)
      (beside : SharesExactly siblings revisedSiblings) :
      SharesExactly (.node block children siblings)
        (.node revised revisedChildren revisedSiblings)

private theorem sharesNode_update
    (options : UpdateOptions)
    (block : Block)
    (children : BlockForest) :
    SharesNode block children
      ⟨block.updated options,
        (block.retagged? options).isNone && !(update options children).modified⟩
      (update options children).revision := by
  have shared_iff :
      ((block.retagged? options).isNone && !(update options children).modified) = true ↔
        block.retagged? options = none ∧ (update options children).modified = false := by
    rw [Bool.and_eq_true, Option.isNone_iff_eq_none, Bool.not_eq_true']
  constructor
  · rw [shared_iff, Block.retagged?_eq_none_iff_sameMarkers, modified_update_eq_false_iff_zip]
  · intro shared
    obtain ⟨here, below⟩ := shared_iff.1 shared
    exact ⟨Block.retagged?_eq_none_iff_updated.1 here, revision_update_of_current below⟩

private theorem sharesExactly_update (options : UpdateOptions) (forest : BlockForest) :
    SharesExactly forest (update options forest).revision := by
  induction forest with
  | nil => exact .nil
  | node block children siblings childrenHypothesis siblingsHypothesis =>
      rw [revision_update_node]
      exact
        .node block children siblings _ _ _ (sharesNode_update options block children)
          childrenHypothesis siblingsHypothesis

theorem modified_update_eq_false_iff_tree {forest : BlockForest} :
    (update options forest).modified = false ↔ (update options forest).tree = forest := by
  constructor
  · intro current
    rw [TagUpdate.tree, revision_update_of_current current, map_block_keep]
  · intro same
    rw [modified_update_eq_false_iff]
    have listed : forest.toList.map (Block.updated options) = forest.toList.map id := by
      rw [← Forest.toList_map, ← tree_update, same, List.map_id]
    intro block member
    exact Block.retagged?_eq_none_iff_updated.2 (List.map_inj_left.1 listed block member)

/-- An update says whether it changes anything, shares what it does not change,
and leaves nothing to change. -/
theorem update_changes_exactly (options : UpdateOptions) (forest : BlockForest) :
    let result := update options forest
    forest.SharesExactly result.revision ∧
      (result.modified = false ↔ result.tree = forest) ∧
      (result.modified = false → result.revision = keep forest) ∧
      (update options result.tree).modified = false := by
  intro result
  refine
    ⟨sharesExactly_update options forest, modified_update_eq_false_iff_tree,
      revision_update_of_current, ?_⟩
  rw [modified_update_eq_false_iff, tree_update, Forest.toList_map]
  intro block member
  obtain ⟨old, _, rfl⟩ := List.mem_map.1 member
  exact old.retagged?_updated options

end BlockForest

end MacroRegions

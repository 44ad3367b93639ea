import MacroRegions.Proofs.Update.Tree

/-!
What an update establishes and what it leaves alone.

An update is told here without the way in which it is made: which tag a start marker
gets, that the end marker follows, and that nothing else changes. A block can be stale
afterwards only for the file that its tag names.
-/

namespace MacroRegions

/-- Two forests have the same shape, and the values at the same places are
related. -/
inductive Forest.Pointwise {α β : Type} (R : α → β → Prop) : Forest α → Forest β → Prop where
  | nil : Pointwise R .nil .nil
  | node
      (value : α)
      (other : β)
      (children siblings : Forest α)
      (otherChildren otherSiblings : Forest β)
      (own : R value other)
      (within : Pointwise R children otherChildren)
      (beside : Pointwise R siblings otherSiblings) :
      Pointwise R (.node value children siblings) (.node other otherChildren otherSiblings)

namespace Forest

variable {α β : Type} {R : α → β → Prop}

private theorem pointwise_map
    {f : α → β}
    (related : ∀ value, R value (f value))
    (forest : Forest α) :
    forest.Pointwise R (forest.map f) := by
  induction forest with
  | nil => exact .nil
  | node value children siblings childrenHypothesis siblingsHypothesis =>
      exact .node _ _ _ _ _ _ (related value) childrenHypothesis siblingsHypothesis

private theorem Pointwise.exists_of_mem
    {forest : Forest α}
    {others : Forest β}
    {other : β}
    (pointwise : forest.Pointwise R others)
    (member : other ∈ others.toList) :
    ∃ value ∈ forest.toList, R value other := by
  induction pointwise with
  | nil => simp [toList] at member
  | node value root children siblings _ _ own _ _ childrenHypothesis siblingsHypothesis =>
      simp only [toList, List.mem_cons, List.mem_append] at member ⊢
      rcases member with rfl | inChildren | inSiblings
      · exact ⟨value, Or.inl rfl, own⟩
      · obtain ⟨found, foundMember, related⟩ := childrenHypothesis inChildren
        exact ⟨found, Or.inr (Or.inl foundMember), related⟩
      · obtain ⟨found, foundMember, related⟩ := siblingsHypothesis inSiblings
        exact ⟨found, Or.inr (Or.inr foundMember), related⟩

end Forest

/-- The tag that a start marker has after an update: none if it has none and
none is to be added, and else one of its own line that keeps the file. -/
structure Marker.TagAfterUpdate
    (options : UpdateOptions)
    (start : Marker)
    (tag : Option LocationTag) :
    Prop where
  absent_iff : tag = none ↔ start.tag = none ∧ options.addMissing = false
  line : ∀ found ∈ tag, found.line = start.line
  filePath : ∀ found ∈ tag, found.filePath = start.tag.bind (·.filePath)

private theorem Marker.tagAfterUpdate_resolvedTag (options : UpdateOptions) (start : Marker) :
    start.TagAfterUpdate options (start.resolvedTag options) := by
  cases tagEq : start.tag with
  | none =>
      by_cases adds : options.addMissing = true
      · have resolved : start.resolvedTag options = some (.here start.line) := by
          simp [resolvedTag, tagEq, adds]
        rw [resolved]
        exact ⟨by simp [adds], by simp [LocationTag.here], by simp [LocationTag.here, tagEq]⟩
      · have resolved : start.resolvedTag options = none := by
          simp [resolvedTag, tagEq, adds]
        rw [resolved]
        exact ⟨by simp [tagEq, adds], by simp, by simp⟩
  | some tag =>
      by_cases current : tag.line = start.line
      · have resolved : start.resolvedTag options = some tag := by
          simp [resolvedTag, tagEq, current]
        rw [resolved]
        exact ⟨by simp [tagEq], by simp [current], by simp [tagEq]⟩
      · have resolved : start.resolvedTag options = some { tag with line := start.line } := by
          simp [resolvedTag, tagEq, current]
        rw [resolved]
        exact ⟨by simp [tagEq], by simp, by simp [tagEq]⟩

/-- What an update makes of a block. The end follows the start, and the end of
a start without a tag names the line of the start. -/
inductive Block.UpdatedTo (options : UpdateOptions) : Block → Block → Prop where
  | startless (stop : Option Marker) (error : Option BlockError) :
      UpdatedTo options ⟨none, stop, error⟩ ⟨none, stop, error⟩
  | started
      (start : Marker)
      (stop : Option Marker)
      (error : Option BlockError)
      (tag : Option LocationTag)
      (tagged : start.TagAfterUpdate options tag) :
      UpdatedTo options
        ⟨some start, stop, error⟩
        ⟨some { start with tag := tag },
          stop.map fun stop => { stop with tag := some (tag.getD ⟨none, start.line⟩) },
          error⟩

namespace Block

private theorem updatedTo_updated (options : UpdateOptions) (block : Block) :
    block.UpdatedTo options (block.updated options) := by
  obtain ⟨start, stop, error⟩ := block
  cases start with
  | none =>
      rw [updated_of_start_eq_none options rfl]
      exact .startless stop error
  | some start =>
      rw [updated_eq options rfl]
      exact .started start stop error _ (start.tagAfterUpdate_resolvedTag options)

def namesOtherFile (filePath : Text) (block : Block) : Bool :=
  block.start.any fun start =>
    start.tag.any fun tag =>
      tag.filePath.any fun path => !LocationTag.namesFile path filePath

/-- The line of an updated block is never the reason for it to be stale. -/
theorem UpdatedTo.isStale_eq
    {options : UpdateOptions}
    {old new : Block}
    (updated : old.UpdatedTo options new)
    (filePath : Text) :
    Document.isStale filePath new = new.namesOtherFile filePath := by
  cases updated with
  | startless stop error => rfl
  | started start stop error tag tagged =>
      cases tag with
      | none => rfl
      | some found =>
          have lineEq : found.line = start.line := tagged.line found rfl
          cases pathEq : found.filePath with
          | none =>
              simp [Document.isStale, namesOtherFile, LocationTag.agreesWith, Marker.line, pathEq,
                lineEq]
          | some path =>
              simp [Document.isStale, namesOtherFile, LocationTag.agreesWith, Marker.line, pathEq,
                lineEq]

end Block

/-- An update brings every tag up to date and leaves all else as it was. -/
theorem Document.update_establishes (document : Document) (options : UpdateOptions) :
    let updated : Document :=
      { document with tree := (BlockForest.update options document.tree).tree }
    document.tree.Pointwise (Block.UpdatedTo options) updated.tree ∧
      updated.staleBlocks = updated.blocks.filter (Block.namesOtherFile document.filePath) := by
  intro updated
  have pointwise : document.tree.Pointwise (Block.UpdatedTo options) updated.tree := by
    simp only [updated, BlockForest.tree_update]
    exact Forest.pointwise_map (Block.updatedTo_updated options) document.tree
  refine ⟨pointwise, ?_⟩
  apply List.filter_congr
  intro block member
  rw [blocks_eq_toList] at member
  obtain ⟨old, _, updatedTo⟩ := pointwise.exists_of_mem member
  exact updatedTo.isStale_eq document.filePath

end MacroRegions

import MacroRegions.Update.Document

/-!
What bringing location tags up to date does to a tree.

Every block gets the tags that its markers should have, and keeps its place. Nothing
is modified exactly if every block has these tags already, which updated blocks do.
-/

namespace MacroRegions

namespace Marker

@[simp]
theorem withTag_tag (marker : Marker) : marker.withTag marker.tag = marker := rfl

theorem withTag_tag_of_eq
    {marker : Marker}
    {tag : Option LocationTag}
    (tagEq : tag = marker.tag) :
    marker.withTag tag = marker := by
  rw [tagEq, withTag_tag]

/-- A tag that is there is not taken away. -/
theorem tag_eq_none_of_resolvedTag
    {options : UpdateOptions}
    {start : Marker}
    (resolved : start.resolvedTag options = none) :
    start.tag = none := by
  cases tagEq : start.tag with
  | none => rfl
  | some tag =>
      simp only [resolvedTag, tagEq] at resolved
      split at resolved <;> simp at resolved

/-- A tag that should be there is the tag that should be there. -/
theorem resolvedTag_withTag (options : UpdateOptions) (start : Marker) :
    (start.withTag (start.resolvedTag options)).resolvedTag options =
      start.resolvedTag options := by
  have lineEq : ∀ tag, (start.withTag tag).line = start.line := fun _ => rfl
  cases tagEq : start.tag with
  | none =>
      by_cases adds : options.addMissing = true
      · simp [resolvedTag, tagEq, adds, withTag, LocationTag.here, Marker.line]
      · simp [resolvedTag, tagEq, adds, withTag]
  | some tag =>
      by_cases current : tag.line = start.line
      · have resolved : start.resolvedTag options = some tag := by
          simp [resolvedTag, tagEq, current]
        have tagged : (start.withTag (some tag)).tag = some tag := rfl
        rw [resolved, resolvedTag, tagged, lineEq]
        simp [current]
      · have resolved :
            start.resolvedTag options = some { tag with line := start.line } := by
          simp [resolvedTag, tagEq, current]
        rw [resolved]
        simp [resolvedTag, withTag, Marker.line]

private theorem stopTag_withTag (options : UpdateOptions) (start : Marker) :
    (start.withTag (start.resolvedTag options)).stopTag options = start.stopTag options := by
  rw [stopTag, resolvedTag_withTag, stopTag]
  rfl

end Marker

namespace Block

def updated (options : UpdateOptions) (block : Block) : Block :=
  (block.retagged? options).getD block

/-- A block is as it should be when its markers have the tags that they should
have. -/
theorem retagged?_eq_none_iff {options : UpdateOptions} {block : Block} :
    block.retagged? options = none ↔
      ∀ start, block.start = some start →
        start.resolvedTag options = start.tag ∧
          ∀ stop, block.stop = some stop → stop.tag = some (start.stopTag options) := by
  cases startEq : block.start with
  | none => simp [retagged?, startEq]
  | some start =>
      have startCase :
          start.retaggedStart? options = none ↔ start.resolvedTag options = start.tag := by
        simp [Marker.retaggedStart?]
      have stopCase :
          block.stop.bind (start.retaggedStop? options) = none ↔
            ∀ stop, block.stop = some stop → stop.tag = some (start.stopTag options) := by
        cases block.stop with
        | none => simp
        | some stop => simp [Marker.retaggedStop?]
      simp only [Option.some.injEq, forall_eq', ← startCase, ← stopCase, retagged?, startEq]
      cases start.retaggedStart? options <;>
        cases block.stop.bind (start.retaggedStop? options) <;> simp

theorem updated_of_start_eq_none
    {block : Block}
    (options : UpdateOptions)
    (startEq : block.start = none) :
    block.updated options = block := by
  simp [updated, retagged?, startEq]

theorem updated_eq
    {block : Block}
    {start : Marker}
    (options : UpdateOptions)
    (startEq : block.start = some start) :
    block.updated options =
      { block with
        start := some (start.withTag (start.resolvedTag options))
        stop := block.stop.map (·.withTag (some (start.stopTag options))) } := by
  have startCase :
      (start.retaggedStart? options <|> block.start) =
        some (start.withTag (start.resolvedTag options)) := by
    by_cases current : start.resolvedTag options = start.tag
    · simp [Marker.retaggedStart?, current, startEq]
    · simp [Marker.retaggedStart?, current]
  have stopCase :
      (block.stop.bind (start.retaggedStop? options) <|> block.stop) =
        block.stop.map (·.withTag (some (start.stopTag options))) := by
    cases block.stop with
    | none => rfl
    | some stop =>
        by_cases current : stop.tag = some (start.stopTag options)
        · have same := Marker.withTag_tag_of_eq current.symm
          simp [Marker.retaggedStop?, current, same]
        · simp [Marker.retaggedStop?, current]
  have merged :
      block.updated options =
        { block with
          start := start.retaggedStart? options <|> block.start
          stop := block.stop.bind (start.retaggedStop? options) <|> block.stop } := by
    obtain ⟨_, stop, error⟩ := block
    simp only at startEq
    subst startEq
    simp only [updated, retagged?]
    cases start.retaggedStart? options with
    | none =>
        cases stop.bind (start.retaggedStop? options) with
        | none => rfl
        | some _ => rfl
    | some _ => rfl
  rw [merged, startCase, stopCase]

/-- An updated block is as it should be. -/
theorem retagged?_updated (options : UpdateOptions) (block : Block) :
    (block.updated options).retagged? options = none := by
  rw [retagged?_eq_none_iff]
  cases startEq : block.start with
  | none =>
      rw [updated_of_start_eq_none options startEq, startEq]
      simp
  | some start =>
      rw [updated_eq options startEq]
      intro start' startEq'
      obtain rfl := Option.some.inj startEq'
      refine ⟨start.resolvedTag_withTag options, ?_⟩
      intro stop' stopEq
      obtain ⟨stop, _, rfl⟩ := Option.map_eq_some_iff.1 stopEq
      rw [start.stopTag_withTag options]
      rfl

end Block

theorem Forest.zip_map
    {α β : Type}
    (f : α → β)
    (forest : Forest α) :
    forest.zip (forest.map f) = forest.toList.map fun value => (value, f value) := by
  induction forest with
  | nil => rfl
  | node value children siblings childrenHypothesis siblingsHypothesis =>
      simp [Forest.map, Forest.zip, Forest.toList, childrenHypothesis, siblingsHypothesis]

namespace BlockForest

theorem revise?_eq_none_iff {options : UpdateOptions} {forest : BlockForest} :
    revise? options forest = none ↔
      ∀ block ∈ forest.toList, block.retagged? options = none := by
  induction forest with
  | nil => simp [revise?, Forest.toList]
  | node block children siblings childrenHypothesis siblingsHypothesis =>
      have listed :
          (∀ other ∈ (Forest.node block children siblings).toList,
              other.retagged? options = none) ↔
            block.retagged? options = none ∧
              revise? options children = none ∧ revise? options siblings = none := by
        rw [childrenHypothesis, siblingsHypothesis]
        simp only [Forest.toList, List.mem_cons, List.mem_append]
        constructor
        · intro all
          exact
            ⟨all block (Or.inl rfl), fun other member => all other (Or.inr (Or.inl member)),
              fun other member => all other (Or.inr (Or.inr member))⟩
        · rintro ⟨here, within, beside⟩ other (rfl | inChildren | inSiblings)
          · exact here
          · exact within other inChildren
          · exact beside other inSiblings
      rw [listed]
      simp [revise?, and_assoc]

/-- A revision, or what is kept without one, holds the updated blocks in their
places. -/
theorem map_block_revise? (options : UpdateOptions) (forest : BlockForest) :
    ((revise? options forest).getD (keep forest)).map (·.block) =
      forest.map (Block.updated options) := by
  induction forest with
  | nil => rfl
  | node block children siblings childrenHypothesis siblingsHypothesis =>
      rw [revise?]
      by_cases current :
          ((block.retagged? options).isNone && (revise? options children).isNone &&
            (revise? options siblings).isNone) = true
      · simp only [Bool.and_eq_true, Option.isNone_iff_eq_none] at current
        obtain ⟨⟨here, within⟩, beside⟩ := current
        rw [within, Option.getD_none] at childrenHypothesis
        rw [beside, Option.getD_none] at siblingsHypothesis
        simp only [here, within, beside, Option.isNone_none, Bool.and_self, if_true,
          Option.getD_none]
        simp only [keep, Forest.map] at childrenHypothesis siblingsHypothesis ⊢
        rw [childrenHypothesis, siblingsHypothesis, Block.updated, here, Option.getD_none]
      · rw [if_neg current, Option.getD_some]
        simp only [Forest.map]
        rw [childrenHypothesis, siblingsHypothesis, Block.updated]

theorem tree_update (options : UpdateOptions) (forest : BlockForest) :
    (update options forest).tree = forest.map (Block.updated options) := by
  rw [← map_block_revise?, update, TagUpdate.tree]
  cases revise? options forest <;> rfl

theorem modified_update_eq_false_iff {options : UpdateOptions} {forest : BlockForest} :
    (update options forest).modified = false ↔
      ∀ block ∈ forest.toList, block.retagged? options = none := by
  rw [← revise?_eq_none_iff, update]
  cases revise? options forest <;> simp

theorem modified_update_eq_any (options : UpdateOptions) (forest : BlockForest) :
    (update options forest).modified =
      forest.toList.any fun block => (block.retagged? options).isSome := by
  have unmodified :
      (update options forest).modified = false ↔
        (forest.toList.any fun block => (block.retagged? options).isSome) = false := by
    rw [modified_update_eq_false_iff]
    simp
  exact Bool.eq_iff_iff.2 (by simpa only [Bool.not_eq_false] using not_congr unmodified)

/-- The edits of an update are those of its blocks, each on its own. -/
theorem edits_update (options : UpdateOptions) (forest : BlockForest) :
    edits forest (update options forest).tree =
      forest.toList.flatMap fun block => block.edits (block.updated options) := by
  rw [edits, tree_update, Forest.zip_map, List.flatMap_map]

end BlockForest

end MacroRegions

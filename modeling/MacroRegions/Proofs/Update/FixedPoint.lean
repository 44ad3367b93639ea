import MacroRegions.Proofs.Update.Misfits

/-!
Updating a text that has been updated.

The blocks that are read back have the tags that their markers should have, so a
further update changes nothing where every tag fits.
-/

namespace MacroRegions

namespace Marker

private theorem resolvedTag_congr
    {first second : Marker}
    (outlineEq : first.outline = second.outline)
    (updateOptions : UpdateOptions) :
    first.resolvedTag updateOptions = second.resolvedTag updateOptions := by
  obtain ⟨_, _, tagEq, _, _⟩ := outline_eq_iff.1 outlineEq
  have lineEq := line_eq_of_outline_eq outlineEq
  rw [resolvedTag, resolvedTag, tagEq, lineEq]

private theorem stopTag_congr
    {first second : Marker}
    (outlineEq : first.outline = second.outline)
    (updateOptions : UpdateOptions) :
    first.stopTag updateOptions = second.stopTag updateOptions := by
  rw [stopTag, stopTag, resolvedTag_congr outlineEq, line_eq_of_outline_eq outlineEq]

end Marker

/-- Whether a block is as it should be is told by the outlines of its markers. -/
theorem Block.retagged?_eq_none_of_outline_eq
    {updateOptions : UpdateOptions}
    {block other : Block}
    (startEq : block.outline.start = other.outline.start)
    (stopEq : block.outline.stop = other.outline.stop)
    (current : other.retagged? updateOptions = none) :
    block.retagged? updateOptions = none := by
  rw [Block.retagged?_eq_none_iff] at current ⊢
  intro start blockStart
  rw [Block.outline, Block.outline, blockStart, Option.map_some] at startEq
  obtain ⟨otherStart, otherStartEq, startOutline⟩ := Option.map_eq_some_iff.1 startEq.symm
  obtain ⟨startCurrent, stopCurrent⟩ := current otherStart otherStartEq
  obtain ⟨_, _, startTag, _, _⟩ := Marker.outline_eq_iff.1 startOutline
  refine ⟨?_, ?_⟩
  · rw [← Marker.resolvedTag_congr startOutline, startCurrent, startTag]
  · intro stop blockStop
    rw [Block.outline, Block.outline, blockStop, Option.map_some] at stopEq
    obtain ⟨otherStop, otherStopEq, stopOutline⟩ := Option.map_eq_some_iff.1 stopEq.symm
    obtain ⟨_, _, stopTag, _, _⟩ := Marker.outline_eq_iff.1 stopOutline
    rw [← stopTag, stopCurrent otherStop otherStopEq, Marker.stopTag_congr startOutline]

/-- Blocks that resemble updated blocks are as they should be. -/
theorem BlockForest.modified_update_of_resembles
    {updateOptions : UpdateOptions}
    {forest other : BlockForest}
    (resembles : forest.Resembles (other.map (Block.updated updateOptions))) :
    (update updateOptions forest).modified = false := by
  rw [modified_update_eq_false_iff]
  intro block member
  obtain ⟨block', member', startEq, stopEq⟩ := resembles.exists_block member
  rw [Forest.toList_map] at member'
  obtain ⟨old, _, rfl⟩ := List.mem_map.1 member'
  exact
    Block.retagged?_eq_none_of_outline_eq startEq stopEq
      (Block.retagged?_updated updateOptions old)

private theorem Document.update_of_updateTags?_eq_some
    {document : Document}
    {source : Source}
    {updateOptions : UpdateOptions}
    {update : DocumentUpdate}
    (updateEq : document.updateTags? source updateOptions = some update) :
    update.update = BlockForest.update updateOptions document.tree := by
  simp only [updateTags?] at updateEq
  generalize
    (if (BlockForest.update updateOptions document.tree).modified then
        BlockForest.edits document.tree (BlockForest.update updateOptions document.tree).tree
      else []) = edits at updateEq
  split at updateEq
  · obtain ⟨_, _, made⟩ := Option.bind_eq_some_iff.1 updateEq
    rw [← Option.some.inj made]
  · obtain ⟨_, _, made⟩ := Option.bind_eq_some_iff.1 updateEq
    rw [← Option.some.inj made]

/-- An update that modifies nothing makes no edits and leaves the text. -/
theorem Document.updateTags?_of_not_modified
    {document : Document}
    {updateOptions : UpdateOptions}
    (source : Source)
    (same : (BlockForest.update updateOptions document.tree).modified = false) :
    ∃ update,
      document.updateTags? source updateOptions = some update ∧
        update.update.modified = false ∧ update.edits = [] ∧ update.content = none := by
  rw [Document.updateTags?, same]
  exact ⟨_, rfl, same, rfl, rfl⟩

namespace Document

/-- The new text reads back as the updated blocks just if every tag fits, and
then a further update changes nothing. -/
theorem further_update_modifies_nothing
    {source : Source}
    (small : source.size < wordLimit)
    (filePath : Text)
    (options : ParseOptions)
    (updateOptions : UpdateOptions) :
    ∃ update,
      (parse filePath source options).updateTags? source updateOptions = some update ∧
        (BlockForest.Resembles (parse filePath (update.newSource source) options).tree
            update.document.tree ↔
          (parse filePath source options).FitsComments ∧
            (parse filePath source options).FitsLiterals source.text) ∧
        ((parse filePath source options).FitsComments →
          (parse filePath source options).FitsLiterals source.text →
            ∃ further,
              (parse filePath (update.newSource source) options).updateTags?
                  (update.newSource source) updateOptions =
                some further ∧
              further.update.modified = false ∧ further.edits = [] ∧ further.content = none) := by
  obtain ⟨lexemes', update, rewritten, updateEq, documentEq, newEq⟩ :=
    exists_update filePath options small updateOptions
  refine ⟨update, updateEq, ?_, ?_⟩
  · rw [newEq, documentEq]
    exact resembles_rewritten_iff rewritten
  · intro comments literals
    rw [newEq]
    have resembles := resembles_rewritten rewritten comments literals
    exact updateTags?_of_not_modified _ (BlockForest.modified_update_of_resembles resembles)

theorem further_update_driftedText :
    (Source.ofText driftedText).size < wordLimit ∧
      ∃ update further,
        (parse [] (Source.ofText driftedText) .lenient).updateTags? (Source.ofText driftedText)
            ⟨false⟩ =
          some update ∧
          (parse [] (update.newSource (Source.ofText driftedText)) .lenient).updateTags?
              (update.newSource (Source.ofText driftedText)) ⟨false⟩ =
            some further ∧
          further.content = none := by
  obtain ⟨small, comments, literals⟩ := fits_driftedText
  obtain ⟨update, updateEq, _, nothing⟩ :=
    further_update_modifies_nothing small [] .lenient ⟨false⟩
  obtain ⟨further, furtherEq, _, _, contentEq⟩ := nothing comments literals
  exact ⟨small, update, further, updateEq, furtherEq, contentEq⟩

/-- A region with a path that closes the comment that its end is in. -/
def closingText : Text :=
  "// Macro #5*/x#9\n/* EndMacro */\n".toList

def closedText : Text :=
  "// Macro #5*/x#1\n/* EndMacro #5*/x#1 */\n".toList

private theorem exists_update_closingText :
    ∃ update,
      (parse [] (Source.ofText closingText) .lenient).updateTags? (Source.ofText closingText)
          ⟨false⟩ =
        some update ∧
        update.document =
          { parse [] (Source.ofText closingText) .lenient with
            tree :=
              (parse [] (Source.ofText closingText) .lenient).tree.map
                (Block.updated ⟨false⟩) } ∧
        update.content.getD closingText = closedText :=
  exists_updateTags?_of_ordered ⟨false⟩ (by decide +kernel) (by decide +kernel)

/-- A closed comment is read with another tag, which a further update changes. -/
theorem not_further_update_closingText :
    ¬∀ filePath source options updateOptions,
      ∃ update further,
        (parse filePath source options).updateTags? source updateOptions = some update ∧
          (parse filePath (update.newSource source) options).updateTags?
              (update.newSource source) updateOptions =
            some further ∧
          further.update.modified = false ∧ further.edits = [] ∧ further.content = none := by
  intro fixed
  obtain ⟨update, further, updateEq, furtherEq, unmodified, _⟩ :=
    fixed [] (Source.ofText closingText) .lenient ⟨false⟩
  obtain ⟨update', updateEq', _, contentEq⟩ := exists_update_closingText
  obtain rfl : update = update' := Option.some.inj (updateEq.symm.trans updateEq')
  have newEq : update.newSource (Source.ofText closingText) = Source.ofText closedText :=
    congrArg Source.ofText contentEq
  rw [newEq] at furtherEq
  rw [update_of_updateTags?_eq_some furtherEq] at unmodified
  exact absurd unmodified (by decide +kernel)

end Document

end MacroRegions

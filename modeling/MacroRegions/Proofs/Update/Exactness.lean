import Mathlib.Data.List.Forall2
import MacroRegions.Proofs.Marker.Placement
import MacroRegions.Proofs.Update.Replacement
import MacroRegions.Proofs.Update.Writing

/-!
What the edits of an update touch.

A marker whose tag changes has one edit, which lies within the comment or the
directive of the marker; no other marker has any. Comments and directives lie apart,
so the edits do.
-/

namespace MacroRegions

/-- An edit cuts no character of a text, and lies within a marker: behind the
place where the marker begins, and not behind its end. -/
structure TextEdit.IsWithin (edit : TextEdit) (source : Source) (found : Marker) : Prop where
  slice : (source.slice? edit.span).isSome
  starts : found.position.start.offset < edit.span.start
  stops : edit.span.stop ≤ found.position.stop.offset

/-- Edits within markers lie as the markers do. -/
theorem TextEdit.IsWithin.precedes
    {source : Source}
    {first second : Marker}
    {edit edit' : TextEdit}
    (within : edit.IsWithin source first)
    (within' : edit'.IsWithin source second)
    (before : first.Before second) :
    edit.Precedes edit' := by
  obtain ⟨old, sliced⟩ := Option.isSome_iff_exists.1 within.slice
  obtain ⟨_, _, _, _, size⟩ := Text.slice?_eq_some_iff.1 sliced
  have stops := within.stops
  have starts' := within'.starts
  unfold Marker.Before at before
  constructor
  · unfold TextEdit.StartsBefore
    omega
  · omega

namespace Document

variable
  {filePath : Text}
  {source : Source}
  {trivia : List Trivia}
  {options : ParseOptions}
  {found : Marker}

/-- Another tag for a marker is written within the marker. -/
theorem exists_edit_of_ne
    {tag : LocationTag}
    (accepted : Trivia.firstFault? source.text trivia = none)
    (member : found ∈ PairingItem.markers (pairingItems source trivia))
    (different : found.tag ≠ some tag) :
    ∃ edit,
      found.edit? (found.withTag (some tag)) = some edit ∧ edit.IsWithin source found := by
  rw [PairingItem.mem_markers_iff, pairingItems_eq_filterMap] at member
  obtain ⟨item, itemMember, isMarker⟩ := List.mem_filterMap.1 member
  have holds := (Trivia.firstFault?_eq_none_iff.1 accepted).1 item itemMember
  have startEq := Source.start_offset_positionOf holds
  have stopEq := Source.stop_offset_positionOf holds
  rw [← PairingItem.position_of_ofTrivia?_eq_some isMarker] at startEq stopEq
  obtain ⟨piece, sliced, fitting⟩ := holds
  have itemSlice : source.slice? item.span = some piece := sliced
  rw [PairingItem.ofTrivia?_eq_bind, itemSlice, Option.bind_some] at isMarker
  obtain ⟨front, old, back, new, pieceEq, nonempty, edited⟩ :=
    Marker.exists_edit fitting isMarker different
  obtain ⟨before, behind, textEq, beforeEq, size⟩ := Text.slice?_eq_some_iff.1 sliced
  simp only at pieceEq edited
  subst pieceEq
  refine ⟨_, edited, ?_, ?_, ?_⟩
  · rw [Option.isSome_iff_exists]
    refine ⟨old, Text.slice?_eq_some_iff.2 ⟨before ++ front, back ++ behind, ?_, ?_, ?_⟩⟩
    · simp [textEq]
    · rw [Text.byteSize_append, beforeEq]
    · rfl
  · cases front with
    | nil => exact absurd rfl nonempty
    | cons c rest =>
        have positive := Char.utf8Size_pos c
        simp only [Text.byteSize_cons]
        omega
  · simp only [Text.byteSize_append] at size
    simp only
    omega

/-- A marker that should have another tag has an edit. -/
theorem exists_editFor_of_ne
    {updateOptions : UpdateOptions}
    (accepted : Trivia.firstFault? source.text trivia = none)
    (member : found ∈ PairingItem.markers (pairingItems source trivia))
    (stale :
      (ofTrivia filePath source trivia options).tagFor updateOptions found ≠ found.tag) :
    ∃ edit,
      (ofTrivia filePath source trivia options).editFor? updateOptions found = some edit ∧
        edit.IsWithin source found := by
  obtain ⟨tag, tagEq⟩ := exists_tagFor_of_ne accepted member stale
  rw [tagEq] at stale
  rw [editFor?, tagEq]
  exact exists_edit_of_ne accepted member stale.symm

private theorem editFor?_of_eq
    {document : Document}
    {updateOptions : UpdateOptions}
    (current : document.tagFor updateOptions found = found.tag) :
    document.editFor? updateOptions found = none :=
  Lexeme.edit?_of_current current

private theorem isWithin_of_editFor
    {updateOptions : UpdateOptions}
    {edit : TextEdit}
    (accepted : Trivia.firstFault? source.text trivia = none)
    (member : found ∈ PairingItem.markers (pairingItems source trivia))
    (editEq :
      (ofTrivia filePath source trivia options).editFor? updateOptions found = some edit) :
    edit.IsWithin source found := by
  by_cases current :
      (ofTrivia filePath source trivia options).tagFor updateOptions found = found.tag
  · rw [editFor?_of_eq current] at editEq
    simp at editEq
  · obtain ⟨edit', editEq', within⟩ := exists_editFor_of_ne accepted member current
    obtain rfl := Option.some.inj (editEq.symm.trans editEq')
    exact within

/-- The edits of all markers, as they come in the text, lie one behind the other. -/
theorem pairwise_editsInOrder
    (accepted : Trivia.firstFault? source.text trivia = none)
    (updateOptions : UpdateOptions) :
    ((PairingItem.markers (pairingItems source trivia)).filterMap
      ((ofTrivia filePath source trivia options).editFor? updateOptions)).Pairwise
        TextEdit.Precedes := by
  rw [List.pairwise_filterMap]
  refine (List.Pairwise.and_mem.1 (inOrder_pairingItems accepted).before).imp ?_
  rintro first second ⟨firstMember, secondMember, before⟩ edit editEq edit' editEq'
  exact
    (isWithin_of_editFor accepted firstMember editEq).precedes
      (isWithin_of_editFor accepted secondMember editEq') before

private theorem markers_updated
    {block : Block}
    (accepted : Trivia.firstFault? source.text trivia = none)
    (updateOptions : UpdateOptions)
    (member : block ∈ (ofTrivia filePath source trivia options).blocks) :
    (block.updated updateOptions).markers =
      block.markers.map fun found =>
        found.withTag
          ((ofTrivia filePath source trivia options).tagFor updateOptions found) := by
  obtain ⟨start, startEq, _, isStart⟩ := mem_markers_of_mem_blocks member
  have startTag := tagFor_start (ofTrivia filePath source trivia options) updateOptions isStart
  rw [Block.updated_eq updateOptions startEq, Block.markers, Block.markers, startEq]
  cases stopEq : block.stop with
  | none => simp [startTag]
  | some stop => simp [startTag, tagFor_stop accepted updateOptions member startEq stopEq]

/-- No edit means that all markers have the tags that they should have. -/
theorem modified_of_edits_eq_nil
    {updateOptions : UpdateOptions}
    (accepted : Trivia.firstFault? source.text trivia = none)
    (noEdits :
      BlockForest.edits (ofTrivia filePath source trivia options).tree
          (BlockForest.update updateOptions
            (ofTrivia filePath source trivia options).tree).tree =
        []) :
    (BlockForest.update updateOptions
      (ofTrivia filePath source trivia options).tree).modified = false := by
  rw [edits_update_eq_filterMap accepted, List.filterMap_eq_nil_iff] at noEdits
  have current : ∀ block ∈ (ofTrivia filePath source trivia options).blocks,
      ∀ found ∈ block.markers,
        (ofTrivia filePath source trivia options).tagFor updateOptions found = found.tag := by
    intro block member found inBlock
    have listed := List.mem_flatMap.2 ⟨block, member, inBlock⟩
    by_contra stale
    obtain ⟨edit, editEq, _⟩ :=
      exists_editFor_of_ne accepted (mem_markers_of_mem_flatMap listed) stale
    rw [noEdits found listed] at editEq
    simp at editEq
  rw [BlockForest.modified_update_eq_false_iff]
  intro block member
  rw [← blocks_eq_toList] at member
  rw [Block.retagged?_eq_none_iff]
  intro start startEq
  obtain ⟨start', startEq', _, isStart⟩ := mem_markers_of_mem_blocks member
  obtain rfl : start = start' := Option.some.inj (startEq.symm.trans startEq')
  constructor
  · rw [← tagFor_start (ofTrivia filePath source trivia options) updateOptions isStart]
    exact current block member start (Block.mem_markers_iff.2 (Or.inl startEq))
  · intro stop stopEq
    rw [← tagFor_stop accepted updateOptions member startEq stopEq]
    exact (current block member stop (Block.mem_markers_iff.2 (Or.inr stopEq))).symm

end Document

/-! ## Exact updates -/

private theorem forall₂_filter_filterMap
    {α β : Type}
    {R : α → β → Prop}
    {p : α → Bool}
    {f : α → Option β}
    {items : List α}
    (kept : ∀ item ∈ items, p item = true → ∃ result, f item = some result ∧ R item result)
    (dropped : ∀ item ∈ items, p item = false → f item = none) :
    List.Forall₂ R (items.filter p) (items.filterMap f) := by
  induction items with
  | nil => exact List.Forall₂.nil
  | cons item rest inductionHypothesis =>
      have tail :=
        inductionHypothesis (fun other member => kept other (List.mem_cons_of_mem _ member))
          (fun other member => dropped other (List.mem_cons_of_mem _ member))
      by_cases keeps : p item = true
      · obtain ⟨result, resultEq, related⟩ := kept item List.mem_cons_self keeps
        rw [List.filter_cons_of_pos keeps, List.filterMap_cons_some resultEq]
        exact List.Forall₂.cons related tail
      · have resultEq := dropped item List.mem_cons_self (Bool.eq_false_iff.2 keeps)
        rw [List.filter_cons_of_neg keeps, List.filterMap_cons_none resultEq]
        exact tail

/-- Two edits begin at different places, and what they replace lies apart. -/
def TextEdit.Apart (first second : TextEdit) : Prop :=
  first.Precedes second ∨ second.Precedes first

def Document.markerPairs (document updated : Document) : List (Marker × Marker) :=
  (document.blocks.flatMap Block.markers).zip (updated.blocks.flatMap Block.markers)

/-- An update edits the tags that change and nothing else. The markers with another tag
have one edit each, and the new text is the old one with all edits made at once. -/
structure DocumentUpdate.IsExact
    (update : DocumentUpdate)
    (document : Document)
    (source : Source) :
    Prop where
  nodup : (document.blocks.flatMap Block.markers).Nodup
  aligned :
    List.Forall₂ (fun old new => new = old.withTag new.tag)
      (document.blocks.flatMap Block.markers) (update.document.blocks.flatMap Block.markers)
  edited :
    List.Forall₂
      (fun pair edit => pair.1.edit? pair.2 = some edit ∧ edit.IsWithin source pair.1)
      ((document.markerPairs update.document).filter fun pair => pair.1.tag ≠ pair.2.tag)
      update.edits
  apart : update.edits.Pairwise TextEdit.Apart
  modified : update.edits = [] ↔ update.update.modified = false
  unwritten : update.content = none ↔ update.edits = []
  written : ∀ content,
    update.content = some content →
      ∃ ordered, ordered.Perm update.edits ∧
        TextEdit.Replaces 0 ordered source.text content

namespace Document

variable
  {filePath : Text}
  {source : Source}
  {trivia : List Trivia}
  {options : ParseOptions}

private theorem flatMap_markers_updated
    (accepted : Trivia.firstFault? source.text trivia = none)
    (updateOptions : UpdateOptions)
    {updated : Document}
    (treeEq :
      updated.tree =
        (ofTrivia filePath source trivia options).tree.map (Block.updated updateOptions)) :
    updated.blocks.flatMap Block.markers =
      ((ofTrivia filePath source trivia options).blocks.flatMap Block.markers).map
        fun found =>
          found.withTag
            ((ofTrivia filePath source trivia options).tagFor updateOptions found) := by
  rw [blocks_eq_toList updated, treeEq, Forest.toList_map, List.flatMap_map, List.map_flatMap,
    ← blocks_eq_toList]
  exact List.flatMap_congr fun block member => markers_updated accepted updateOptions member

private theorem forall₂_markers_updated
    (accepted : Trivia.firstFault? source.text trivia = none)
    (updateOptions : UpdateOptions)
    {updated : Document}
    (treeEq :
      updated.tree =
        (ofTrivia filePath source trivia options).tree.map (Block.updated updateOptions)) :
    List.Forall₂ (fun old new => new = old.withTag new.tag)
      ((ofTrivia filePath source trivia options).blocks.flatMap Block.markers)
      (updated.blocks.flatMap Block.markers) := by
  rw [flatMap_markers_updated accepted updateOptions treeEq, List.forall₂_map_right_iff]
  exact List.forall₂_same.2 fun found _ => rfl

/-- The edits of an update are those of the markers that get another tag. -/
theorem forall₂_edits_update
    (accepted : Trivia.firstFault? source.text trivia = none)
    (updateOptions : UpdateOptions)
    {updated : Document}
    (treeEq :
      updated.tree =
        (ofTrivia filePath source trivia options).tree.map (Block.updated updateOptions)) :
    List.Forall₂
      (fun pair edit => pair.1.edit? pair.2 = some edit ∧ edit.IsWithin source pair.1)
      (((ofTrivia filePath source trivia options).markerPairs updated).filter fun pair =>
        pair.1.tag ≠ pair.2.tag)
      (BlockForest.edits (ofTrivia filePath source trivia options).tree
        (BlockForest.update updateOptions
          (ofTrivia filePath source trivia options).tree).tree) := by
  rw [markerPairs, flatMap_markers_updated accepted updateOptions treeEq,
    ← List.map_prod_left_eq_zip, List.filter_map, List.forall₂_map_left_iff,
    edits_update_eq_filterMap accepted]
  apply forall₂_filter_filterMap
  · intro found member changed
    obtain ⟨edit, editEq, within⟩ :=
      exists_editFor_of_ne accepted (mem_markers_of_mem_flatMap member)
        (Ne.symm (of_decide_eq_true changed))
    exact ⟨edit, editEq, editEq, within⟩
  · intro found _ unchanged
    apply editFor?_of_eq
    exact (Decidable.not_not.1 (of_decide_eq_false unchanged)).symm

/-- All edits of an update can be made at once, which comes to the new text. -/
theorem exists_replaces_edits_update
    (accepted : Trivia.firstFault? source.text trivia = none)
    (updateOptions : UpdateOptions) :
    ∃ ordered content,
      (BlockForest.edits (ofTrivia filePath source trivia options).tree
          (BlockForest.update updateOptions
            (ofTrivia filePath source trivia options).tree).tree).Perm
          ordered ∧
        ordered.Pairwise TextEdit.Precedes ∧
        TextEdit.Replaces 0 ordered source.text content := by
  have inOrder :
      ((PairingItem.markers (pairingItems source trivia)).filterMap
        ((ofTrivia filePath source trivia options).editFor? updateOptions)).Pairwise
          TextEdit.Precedes :=
    pairwise_editsInOrder accepted updateOptions
  have slices : ∀ edit ∈
      (PairingItem.markers (pairingItems source trivia)).filterMap
        ((ofTrivia filePath source trivia options).editFor? updateOptions),
      edit.IsSliceOf 0 source.text := by
    intro edit member
    obtain ⟨found, foundMember, editEq⟩ := List.mem_filterMap.1 member
    exact TextEdit.isSliceOf_zero_iff.2 (isWithin_of_editFor accepted foundMember editEq).slice
  obtain ⟨content, replaced⟩ := TextEdit.exists_replaces inOrder 0 source.text slices
  exact ⟨_, content, perm_edits_update accepted updateOptions, inOrder, replaced⟩

/-- Every document of a text is updated by edits of the tags that change. -/
theorem exists_exact_update
    {input : Input}
    {options : ParseOptions}
    {document : Document}
    (parsed : input.parse options = .ok document)
    (updateOptions : UpdateOptions) :
    ∃ update,
      document.updateTags? input.source updateOptions = some update ∧
        update.IsExact document input.source := by
  obtain ⟨accepted, rfl⟩ := Input.parse_eq_ok_iff.1 parsed
  obtain ⟨ordered, content, listed, inOrder, replaced⟩ :=
    exists_replaces_edits_update accepted updateOptions
  refine
    ⟨_, updateTags?_of_applied updateOptions rfl (replaced.applyAll?_of_perm inOrder listed), ?_⟩
  constructor
  · exact nodup_markers accepted
  · exact forall₂_markers_updated accepted updateOptions rfl
  · exact forall₂_edits_update accepted updateOptions rfl
  · refine (listed.pairwise_iff ?_).2 (inOrder.imp Or.inl)
    intro first second apart
    exact apart.symm
  · exact ⟨modified_of_edits_eq_nil accepted, BlockForest.edits_of_not_modified⟩
  · simp
  · intro content' contentEq
    refine ⟨ordered, listed.symm, ?_⟩
    simp only at contentEq
    split at contentEq
    · simp at contentEq
    · obtain rfl := Option.some.inj contentEq
      exact replaced

/-- A block of which the comments touch, as a host supplies them. -/
def touchingInput : Input where
  filePath := []
  source := Source.ofText "/*Macro é*//*EndMacro #7*/".toList
  trivia := some [⟨.blockComment, ⟨0, 12⟩⟩, ⟨.blockComment, ⟨12, 27⟩⟩]

theorem exact_update_touchingInput :
    ∃ document update,
      touchingInput.parse .lenient = .ok document ∧
        document.updateTags? touchingInput.source ⟨true⟩ = some update ∧
        update.IsExact document touchingInput.source ∧
        update.content.getD touchingInput.source.text =
          "/*Macro é #1*//*EndMacro #1*/".toList := by
  have parsed :
      touchingInput.parse .lenient =
        .ok (ofTrivia [] touchingInput.source touchingInput.usedTrivia .lenient) :=
    Input.parse_eq_ok_iff.2 ⟨by decide +kernel, rfl⟩
  obtain ⟨update, updateEq, isExact⟩ := exists_exact_update parsed ⟨true⟩
  have made :
      ∃ update,
        (ofTrivia [] touchingInput.source touchingInput.usedTrivia .lenient).updateTags?
            touchingInput.source ⟨true⟩ =
          some update ∧
          update.document =
            { ofTrivia [] touchingInput.source touchingInput.usedTrivia .lenient with
              tree :=
                (ofTrivia [] touchingInput.source touchingInput.usedTrivia .lenient).tree.map
                  (Block.updated ⟨true⟩) } ∧
          update.content.getD touchingInput.source.text =
            "/*Macro é #1*//*EndMacro #1*/".toList :=
    exists_updateTags?_of_ordered ⟨true⟩ (by decide +kernel) (by decide +kernel)
  obtain ⟨update', updateEq', _, contentEq⟩ := made
  obtain rfl : update = update' := Option.some.inj (updateEq.symm.trans updateEq')
  exact ⟨_, update, parsed, updateEq, isExact, contentEq⟩

end Document

end MacroRegions

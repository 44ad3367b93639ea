import MacroRegions.Proofs.Update.Tags

/-!
The text that an update writes.

Every document of a text can be brought up to date. The new text is the old one with
the tags written that its markers should have.
-/

namespace MacroRegions

/-- The lexeme that a marker is written in, with what stands around it. -/
structure Lexeme.Holds
    (source : Source)
    (offset : Nat)
    (found : Marker)
    (kind : TriviaKind)
    (front : List Lexeme)
    (text : Text)
    (back : List Lexeme) : Prop where
  isMarker :
    item? source (offset + Text.byteSize (front.flatMap Lexeme.text)) ⟨.trivia kind, text⟩ =
      some (.marker found)
  shape : ∃ lineBlank, Shape lineBlank (back.flatMap Lexeme.text) ⟨.trivia kind, text⟩

theorem Lexeme.exists_holds
    {source : Source}
    {lineBlank : Bool}
    {offset : Nat}
    {lexemes : List Lexeme}
    {found : Marker}
    (lexing : IsLexing lineBlank lexemes)
    (member : found ∈ markersFrom source offset lexemes) :
    ∃ kind front text back,
      lexemes = front ++ ⟨.trivia kind, text⟩ :: back ∧
        Holds source offset found kind front text back := by
  induction lexemes generalizing lineBlank offset with
  | nil => simp [markersFrom, itemsFrom, PairingItem.markers] at member
  | cons lexeme rest inductionHypothesis =>
      obtain ⟨leads, lexingRest⟩ := lexing
      rcases mem_markersFrom_cons.1 member with here | later
      · obtain ⟨kind, kindEq, _⟩ := item?_eq_some here
        obtain ⟨lexemeKind, text⟩ := lexeme
        obtain rfl : lexemeKind = .trivia kind := kindEq
        exact ⟨kind, [], text, rest, rfl, by simpa using here, lineBlank, leads.shape⟩
      · obtain ⟨kind, front, text, back, rfl, isMarker, shape⟩ :=
          inductionHypothesis lexingRest later
        refine ⟨kind, lexeme :: front, text, back, rfl, ?_, shape⟩
        rw [List.flatMap_cons, Text.byteSize_append, ← Nat.add_assoc]
        exact isMarker

namespace Document

variable {filePath : Text} {source : Source} {options : ParseOptions} {found : Marker}

/-- The items of a text, as they are met in its lexemes. -/
theorem pairingItems_eq_itemsFrom (source : Source) :
    pairingItems source (Trivia.extract source.text) =
      Lexeme.itemsFrom source 0 (Lexeme.ofText source.text) := by
  have split : source.text = [] ++ (Lexeme.ofText source.text).flatMap Lexeme.text := by
    rw [List.nil_append, Lexeme.flatMap_text_ofText]
  have itemsEq := Lexeme.pairingItems_ofLexemesFrom split
  rw [Text.byteSize_nil] at itemsEq
  rw [Trivia.extract, itemsEq]

theorem markers_eq_markersFrom (source : Source) :
    PairingItem.markers (pairingItems source (Trivia.extract source.text)) =
      Lexeme.markersFrom source 0 (Lexeme.ofText source.text) := by
  rw [pairingItems_eq_itemsFrom, Lexeme.markersFrom]

theorem exists_holds
    (member :
      found ∈ PairingItem.markers (pairingItems source (Trivia.extract source.text))) :
    ∃ kind front text back,
      Lexeme.ofText source.text = front ++ ⟨.trivia kind, text⟩ :: back ∧
        Lexeme.Holds source 0 found kind front text back := by
  rw [markers_eq_markersFrom] at member
  exact Lexeme.exists_holds (Lexeme.isLexing_ofTextFrom true source.text) member

private theorem isWritable_of_mem_markers
    {tag : LocationTag}
    (member :
      found ∈ PairingItem.markers (pairingItems source (Trivia.extract source.text)))
    (tagEq : found.tag = some tag) :
    tag.IsWritable := by
  obtain ⟨kind, front, text, back, _, holds⟩ := exists_holds member
  exact PairingItem.isWritable_of_tag holds.isMarker tagEq

private theorem line_le_size
    (member :
      found ∈ PairingItem.markers (pairingItems source (Trivia.extract source.text))) :
    found.line ≤ source.size := by
  obtain ⟨kind, front, text, back, lexemesEq, holds⟩ := exists_holds member
  obtain ⟨_, shape⟩ := holds.shape
  obtain ⟨c, tail, textEq, _⟩ := shape.leads
  have split :
      source.text = front.flatMap Lexeme.text ++ (text ++ back.flatMap Lexeme.text) := by
    rw [← Lexeme.flatMap_text_ofText source.text, lexemesEq, List.flatMap_append,
      List.flatMap_cons]
  have nonempty : text ++ back.flatMap Lexeme.text ≠ [] := by
    obtain rfl : text = c :: tail := textEq
    simp
  have bound := Source.line_pointAt_le_size split nonempty
  have positionEq := (PairingItem.place_of_ofPiece? holds.isMarker).2
  rw [Nat.zero_add] at positionEq
  rw [Marker.line, positionEq]
  exact bound

private theorem isWritable_resolvedTag
    {tag : LocationTag}
    (small : source.size < wordLimit)
    (updateOptions : UpdateOptions)
    (member :
      found ∈ PairingItem.markers (pairingItems source (Trivia.extract source.text)))
    (tagEq : found.resolvedTag updateOptions = some tag) :
    tag.IsWritable := by
  have lineSmall : found.line < wordLimit := Nat.lt_of_le_of_lt (line_le_size member) small
  unfold Marker.resolvedTag at tagEq
  split at tagEq
  next own ownEq =>
    have ownWritable := isWritable_of_mem_markers member ownEq
    split at tagEq
    · obtain rfl := Option.some.inj tagEq
      exact ownWritable
    · obtain rfl := Option.some.inj tagEq
      exact ⟨lineSmall, ownWritable.path⟩
  next =>
    split at tagEq
    · obtain rfl := Option.some.inj tagEq
      exact LocationTag.isWritable_here lineSmall
    · simp at tagEq

private theorem isWritable_stopTag
    (small : source.size < wordLimit)
    (updateOptions : UpdateOptions)
    (member :
      found ∈ PairingItem.markers (pairingItems source (Trivia.extract source.text))) :
    (found.stopTag updateOptions).IsWritable := by
  unfold Marker.stopTag
  cases tagEq : found.resolvedTag updateOptions with
  | none =>
      exact
        LocationTag.isWritable_here (Nat.lt_of_le_of_lt (line_le_size member) small)
  | some tag => exact isWritable_resolvedTag small updateOptions member tagEq

/-- Every tag that has to be written can be. -/
theorem isWritable_tagFor
    (small : source.size < wordLimit)
    (updateOptions : UpdateOptions)
    (member :
      found ∈ PairingItem.markers (pairingItems source (Trivia.extract source.text)))
    (stale : (parse filePath source options).tagFor updateOptions found ≠ found.tag) :
    ∃ tag,
      (parse filePath source options).tagFor updateOptions found = some tag ∧
        tag.IsWritable := by
  have accepted := Trivia.firstFault?_extract source.text
  obtain ⟨tag, tagEq⟩ := exists_tagFor_of_ne accepted member stale
  refine ⟨tag, tagEq, ?_⟩
  obtain ⟨block, blockMember, startEq | stopEq⟩ := exists_block_of_tagFor_ne member stale
  · obtain ⟨start, startEq', _, isStart⟩ := mem_markers_of_mem_blocks blockMember
    obtain rfl : start = found := Option.some.inj (startEq'.symm.trans startEq)
    rw [tagFor_start _ _ isStart] at tagEq
    exact isWritable_resolvedTag small updateOptions member tagEq
  · obtain ⟨start, startEq, startMember, _⟩ := mem_markers_of_mem_blocks blockMember
    have stopTag := tagFor_stop accepted updateOptions blockMember startEq stopEq
    obtain rfl := Option.some.inj (stopTag.symm.trans tagEq)
    exact isWritable_stopTag small updateOptions startMember

end Document

private theorem Marker.edit?_self (marker : Marker) : marker.edit? marker = none :=
  if_pos rfl

private theorem Block.edits_self (block : Block) : block.edits block = [] := by
  cases startEq : block.start <;> cases stopEq : block.stop <;>
    simp [Block.edits, markerEdits, startEq, stopEq, Marker.edit?_self]

theorem BlockForest.edits_of_not_modified
    {updateOptions : UpdateOptions}
    {forest : BlockForest}
    (same : (update updateOptions forest).modified = false) :
    edits forest (update updateOptions forest).tree = [] := by
  rw [edits_update, List.flatMap_eq_nil_iff]
  intro block member
  have current := modified_update_eq_false_iff.1 same block member
  rw [Block.updated, current, Option.getD_none, Block.edits_self]

namespace Document

variable {filePath : Text} {source : Source} {options : ParseOptions}

/-- An update makes the edits between the two trees. -/
theorem updateTags?_of_applied
    {document : Document}
    {edits : List TextEdit}
    {content : Text}
    (updateOptions : UpdateOptions)
    (editsEq :
      BlockForest.edits document.tree (BlockForest.update updateOptions document.tree).tree =
        edits)
    (applied : TextEdit.applyAll? edits source.text = some content) :
    document.updateTags? source updateOptions =
      some
        { update := BlockForest.update updateOptions document.tree
          document := { document with tree := document.tree.map (Block.updated updateOptions) }
          edits := edits
          content := if edits.isEmpty then none else some content } := by
  have madeEq :
      (if (BlockForest.update updateOptions document.tree).modified then
          BlockForest.edits document.tree (BlockForest.update updateOptions document.tree).tree
        else []) =
        edits := by
    cases modified : (BlockForest.update updateOptions document.tree).modified with
    | true => exact editsEq
    | false =>
        rw [← editsEq, BlockForest.edits_of_not_modified modified]
        rfl
  rw [updateTags?, madeEq, ← BlockForest.tree_update]
  cases edits with
  | nil => rfl
  | cons edit others =>
      simp only [applied]
      rfl

private theorem exists_updateTags?_of_applied
    {document : Document}
    {content : Text}
    (updateOptions : UpdateOptions)
    (applied :
      TextEdit.applyAll?
          (BlockForest.edits document.tree
            (BlockForest.update updateOptions document.tree).tree)
          source.text =
        some content) :
    ∃ update,
      document.updateTags? source updateOptions = some update ∧
        update.document =
          { document with tree := document.tree.map (Block.updated updateOptions) } ∧
        update.content.getD source.text = content := by
  refine ⟨_, updateTags?_of_applied updateOptions rfl applied, rfl, ?_⟩
  cases listed :
      BlockForest.edits document.tree
        (BlockForest.update updateOptions document.tree).tree with
  | nil =>
      rw [listed, TextEdit.applyAll?_nil] at applied
      exact Option.some.inj applied
  | cons edit others => rfl

/-- An update of which the edits are listed in the order of the text. -/
theorem exists_updateTags?_of_ordered
    {document : Document}
    {content : Text}
    (updateOptions : UpdateOptions)
    (inOrder :
      (BlockForest.edits document.tree
        (BlockForest.update updateOptions document.tree).tree).Pairwise
          TextEdit.StartsBefore)
    (performed :
      (BlockForest.edits document.tree
          (BlockForest.update updateOptions document.tree).tree).reverse.foldlM
          (fun current edit => TextEdit.perform? edit current) source.text =
        some content) :
    ∃ update,
      document.updateTags? source updateOptions = some update ∧
        update.document =
          { document with tree := document.tree.map (Block.updated updateOptions) } ∧
        update.content.getD source.text = content := by
  refine exists_updateTags?_of_applied updateOptions ?_
  rw [TextEdit.applyAll?_eq_of_perm inOrder (List.Perm.refl _), performed]

end Document

def DocumentUpdate.newSource (update : DocumentUpdate) (source : Source) : Source :=
  Source.ofText (update.content.getD source.text)

namespace Document

variable {source : Source}

/-- The new text is the old one with the tags written that its markers should
have. -/
theorem exists_update
    (filePath : Text)
    (options : ParseOptions)
    (small : source.size < wordLimit)
    (updateOptions : UpdateOptions) :
    ∃ lexemes' update,
      Lexeme.Rewritten source ((parse filePath source options).tagFor updateOptions) 0
          (Lexeme.ofText source.text) lexemes' ∧
        (parse filePath source options).updateTags? source updateOptions = some update ∧
        update.document =
          { parse filePath source options with
            tree := (parse filePath source options).tree.map (Block.updated updateOptions) } ∧
        update.newSource source = Source.ofText (lexemes'.flatMap Lexeme.text) := by
  have writable :
      ∀ found ∈ Lexeme.markersFrom source 0 (Lexeme.ofText source.text),
        (parse filePath source options).tagFor updateOptions found ≠ found.tag →
          ∃ tag,
            (parse filePath source options).tagFor updateOptions found = some tag ∧
              tag.IsWritable := by
    intro found member stale
    rw [← markers_eq_markersFrom] at member
    exact isWritable_tagFor small updateOptions member stale
  have lexing : Lexeme.IsLexing true (Lexeme.ofText source.text) :=
    Lexeme.isLexing_ofTextFrom true source.text
  obtain ⟨lexemes', rewritten⟩ := Lexeme.exists_rewritten lexing writable
  have listed :
      (BlockForest.edits (parse filePath source options).tree
          (BlockForest.update updateOptions (parse filePath source options).tree).tree).Perm
        (Lexeme.editsFrom source ((parse filePath source options).tagFor updateOptions) 0
          (Lexeme.ofText source.text)) := by
    rw [Lexeme.editsFrom, ← markers_eq_markersFrom]
    exact perm_edits_update (Trivia.firstFault?_extract source.text) updateOptions
  have performed := rewritten.perform_edits Text.byteSize_nil.symm
  rw [List.nil_append, List.nil_append, Lexeme.flatMap_text_ofText] at performed
  have applied :
      TextEdit.applyAll?
          (BlockForest.edits (parse filePath source options).tree
            (BlockForest.update updateOptions (parse filePath source options).tree).tree)
          source.text =
        some (lexemes'.flatMap Lexeme.text) := by
    rw [TextEdit.applyAll?_eq_of_perm rewritten.startsBefore_edits.1 listed, performed]
  obtain ⟨update, updateEq, documentEq, contentEq⟩ :=
    exists_updateTags?_of_applied updateOptions applied
  exact ⟨lexemes', update, rewritten, updateEq, documentEq, congrArg Source.ofText contentEq⟩

/-- No line is added or lost. -/
theorem lineCount_rewritten
    {tagOf : Marker → Option LocationTag}
    {lexemes' : List Lexeme}
    (rewritten : Lexeme.Rewritten source tagOf 0 (Lexeme.ofText source.text) lexemes') :
    (Source.ofText (lexemes'.flatMap Lexeme.text)).lineCount = source.lineCount := by
  have lines := rewritten.count_newline
  rw [Lexeme.flatMap_text_ofText] at lines
  rw [Source.lineCount_eq, Source.lineCount_eq, ← lines]
  rfl

end Document

end MacroRegions

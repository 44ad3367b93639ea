import MacroRegions.Proofs.Nesting.Relabelling
import MacroRegions.Proofs.Update.Fitting

/-!
Reading back the text that an update writes.

Where every tag fits, the new text has the markers of the old one with the new tags,
so pairing makes the updated blocks of them, but for columns and offsets.
-/

namespace MacroRegions

namespace Relabelling

def outlined : Relabelling where
  marker := Marker.outline
  position := Position.outline
  keyword_eq := fun _ => rfl
  form_eq := fun _ => rfl
  position_eq := fun _ => rfl

/-- Markers as outlines with the tags that `tagOf` names. -/
def retagged (tagOf : Marker → Option LocationTag) : Relabelling where
  marker := fun found => (found.withTag (tagOf found)).outline
  position := Position.outline
  keyword_eq := fun _ => rfl
  form_eq := fun _ => rfl
  position_eq := fun _ => rfl

end Relabelling

/-- Whether blocks are the same but for columns, offsets and errors. -/
def BlockForest.Resembles (forest other : BlockForest) : Prop :=
  BlockForest.eraseErrors (forest.map Block.outline) =
    BlockForest.eraseErrors (other.map Block.outline)

theorem BlockForest.Resembles.symm
    {forest other : BlockForest}
    (resembles : forest.Resembles other) :
    other.Resembles forest :=
  Eq.symm resembles

theorem BlockForest.Resembles.exists_block
    {forest other : BlockForest}
    {block : Block}
    (resembles : forest.Resembles other)
    (member : block ∈ forest.toList) :
    ∃ block' ∈ other.toList,
      block.outline.start = block'.outline.start ∧
        block.outline.stop = block'.outline.stop := by
  have listed :
      ({ block.outline with error := none } : Block) ∈
        (BlockForest.eraseErrors (forest.map Block.outline)).toList := by
    simp only [BlockForest.eraseErrors, Forest.toList_map, List.map_map]
    exact List.mem_map_of_mem member
  rw [resembles] at listed
  simp only [BlockForest.eraseErrors, Forest.toList_map, List.map_map, List.mem_map,
    Function.comp_apply] at listed
  obtain ⟨block', member', blockEq⟩ := listed
  obtain ⟨startEq, stopEq, _⟩ := Block.mk.inj blockEq
  exact ⟨block', member', startEq.symm, stopEq.symm⟩

theorem BlockForest.relabel_outlined (forest : BlockForest) :
    forest.relabel Relabelling.outlined = forest.map Block.outline := rfl

private theorem BlockForest.eraseErrors_relabel (change : Relabelling) (forest : BlockForest) :
    (forest.relabel change).eraseErrors = forest.eraseErrors.relabel change := by
  simp only [BlockForest.relabel, BlockForest.eraseErrors, Forest.map_map]
  rfl

namespace Nesting

variable {items items' : List PairingItem} {tagOf : Marker → Option LocationTag}

/-- Items that differ in tags, columns and offsets make blocks that differ in
these, and problems that differ in columns and offsets. -/
theorem finish_after_congr
    (same :
      items'.map (PairingItem.mapMarker Marker.outline) =
        items.map
          (PairingItem.mapMarker fun found => (found.withTag (tagOf found)).outline)) :
    (after false items').finish.1.relabel .outlined =
        (after false items).finish.1.relabel (.retagged tagOf) ∧
      (problemsOf false items' ++ (after false items').finish.2).map ParseProblem.outline =
        (problemsOf false items ++ (after false items).finish.2).map
          ParseProblem.outline := by
  obtain ⟨afterEq, problemsEq⟩ := run_relabel Relabelling.outlined.keepsReports_lenient items'
  obtain ⟨afterEq', problemsEq'⟩ :=
    run_relabel (Relabelling.retagged tagOf).keepsReports_lenient items
  have sameItems :
      items'.map (PairingItem.mapMarker Relabelling.outlined.marker) =
        items.map (PairingItem.mapMarker (Relabelling.retagged tagOf).marker) :=
    same
  rw [sameItems, afterEq'] at afterEq
  rw [sameItems, problemsEq'] at problemsEq
  have finishEq := congrArg Nesting.finish afterEq
  rw [finish_relabel, finish_relabel] at finishEq
  obtain ⟨treeEq, openEq⟩ := Prod.mk.inj finishEq
  rw [List.map_append, List.map_append]
  exact ⟨treeEq.symm, (congrArg₂ (· ++ ·) problemsEq openEq).symm⟩

private theorem eraseErrors_finish_after (strict : Bool) (items : List PairingItem) :
    (after strict items).finish.1.eraseErrors = (after false items).finish.1.eraseErrors :=
  eraseErrors_finish_congr (eraseErrors_after strict items)

end Nesting

namespace Document

variable {filePath : Text} {source : Source} {options : ParseOptions}
  {updateOptions : UpdateOptions}

private theorem relabel_retagged_block
    {block : Block}
    (member : block ∈ (parse filePath source options).blocks) :
    block.relabel (.retagged ((parse filePath source options).tagFor updateOptions)) =
      (block.updated updateOptions).outline := by
  obtain ⟨start, startEq, _, isStart⟩ := mem_markers_of_mem_blocks member
  have startTag := tagFor_start (parse filePath source options) updateOptions isStart
  rw [Block.updated_eq updateOptions startEq, Block.relabel, Block.outline, startEq]
  cases stopEq : block.stop with
  | none => simp [Relabelling.retagged, startTag]
  | some stop =>
      have stopTag :=
        tagFor_stop (Trivia.firstFault?_extract source.text) updateOptions member startEq stopEq
      simp only [Relabelling.retagged, startTag, Option.map_some]
      rw [show (parse filePath source options).tagFor updateOptions stop = _ from stopTag]

/-- The updated blocks are the blocks with the tags that their markers should
have. -/
theorem relabel_retagged_tree :
    (parse filePath source options).tree.relabel
        (.retagged ((parse filePath source options).tagFor updateOptions)) =
      ((parse filePath source options).tree.map (Block.updated updateOptions)).map
        Block.outline := by
  rw [BlockForest.relabel, Forest.map_map]
  refine Forest.map_congr fun block member => ?_
  rw [← blocks_eq_toList] at member
  exact relabel_retagged_block member

/-- Where every tag fits, the markers of the new text are those of the old one
with the new tags. -/
theorem outline_pairingItems_rewritten
    {lexemes' : List Lexeme}
    (rewritten :
      Lexeme.Rewritten source ((parse filePath source options).tagFor updateOptions) 0
        (Lexeme.ofText source.text) lexemes')
    (comments : (parse filePath source options).FitsComments)
    (literals : (parse filePath source options).FitsLiterals source.text) :
    (pairingItems (Source.ofText (lexemes'.flatMap Lexeme.text))
          (Trivia.extract (lexemes'.flatMap Lexeme.text))).map
        (PairingItem.mapMarker Marker.outline) =
      (pairingItems source (Trivia.extract source.text)).map
        (PairingItem.mapMarker fun found =>
          (found.withTag
            ((parse filePath source options).tagFor updateOptions found)).outline) := by
  have lexing : Lexeme.IsLexing true lexemes' := by
    refine
      rewritten.isLexing (Lexeme.isLexing_ofTextFrom true source.text) (fun found member => ?_)
        (quotesFit_tagFor literals updateOptions)
    rw [← markers_eq_markersFrom] at member
    exact tagsFit_tagFor comments updateOptions member
  have lexemesEq :
      Lexeme.ofText (Source.ofText (lexemes'.flatMap Lexeme.text)).text = lexemes' :=
    Lexeme.ofTextFrom_flatMap_of_isLexing lexing
  have split :
      source.text = [] ++ ((Lexeme.ofText source.text).flatMap Lexeme.text ++ []) := by
    rw [List.nil_append, List.append_nil, Lexeme.flatMap_text_ofText]
  have split' :
      (Source.ofText (lexemes'.flatMap Lexeme.text)).text =
        [] ++ (lexemes'.flatMap Lexeme.text ++ []) := by
    rw [List.nil_append, List.append_nil]
    rfl
  have itemsEq := pairingItems_eq_itemsFrom (Source.ofText (lexemes'.flatMap Lexeme.text))
  rw [lexemesEq] at itemsEq
  rw [pairingItems_eq_itemsFrom source]
  exact
    (congrArg (List.map (PairingItem.mapMarker Marker.outline)) itemsEq).trans
      (rewritten.outline_items Text.byteSize_nil.symm split split' rfl)

/-- Where every tag fits, the new text reads back as the updated blocks, but for
errors that report malformed tags. -/
theorem resembles_rewritten
    {lexemes' : List Lexeme}
    (rewritten :
      Lexeme.Rewritten source ((parse filePath source options).tagFor updateOptions) 0
        (Lexeme.ofText source.text) lexemes')
    (comments : (parse filePath source options).FitsComments)
    (literals : (parse filePath source options).FitsLiterals source.text) :
    BlockForest.Resembles
      (parse filePath (Source.ofText (lexemes'.flatMap Lexeme.text)) options).tree
      ((parse filePath source options).tree.map (Block.updated updateOptions)) := by
  have itemsEq := outline_pairingItems_rewritten rewritten comments literals
  have treeEq := congrArg BlockForest.eraseErrors (Nesting.finish_after_congr itemsEq).1
  rw [BlockForest.eraseErrors_relabel, BlockForest.eraseErrors_relabel,
    ← Nesting.eraseErrors_finish_after options.strictLocationTags,
    ← Nesting.eraseErrors_finish_after options.strictLocationTags,
    ← BlockForest.eraseErrors_relabel, ← BlockForest.eraseErrors_relabel] at treeEq
  rw [BlockForest.Resembles, ← relabel_retagged_tree]
  exact treeEq

/-- Where every tag fits, the new text reads back as the updated document. -/
theorem outline_parse_rewritten
    {lexemes' : List Lexeme}
    (rewritten :
      Lexeme.Rewritten source ((parse filePath source .lenient).tagFor updateOptions) 0
        (Lexeme.ofText source.text) lexemes')
    (comments : (parse filePath source .lenient).FitsComments)
    (literals : (parse filePath source .lenient).FitsLiterals source.text) :
    (parse filePath (Source.ofText (lexemes'.flatMap Lexeme.text)) .lenient).tree.map
          Block.outline =
        ((parse filePath source .lenient).tree.map (Block.updated updateOptions)).map
          Block.outline ∧
      (parse filePath (Source.ofText (lexemes'.flatMap Lexeme.text)) .lenient).problems.map
          ParseProblem.outline =
        (parse filePath source .lenient).problems.map ParseProblem.outline := by
  have itemsEq := outline_pairingItems_rewritten rewritten comments literals
  obtain ⟨treeEq, problemsEq⟩ := Nesting.finish_after_congr itemsEq
  rw [← relabel_retagged_tree]
  exact ⟨treeEq, problemsEq⟩

end Document

end MacroRegions

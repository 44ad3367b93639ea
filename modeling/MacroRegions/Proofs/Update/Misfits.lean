import MacroRegions.Proofs.Update.Quotes
import MacroRegions.Proofs.Update.ReadingBack

/-!
Tags that do not fit where they are written.

A block comment that a tag has closed holds another tag when it is read, and behind a
literal that a tag has closed there are not all the tags that have been written. So
the text does not read back as the updated blocks.
-/

namespace MacroRegions.Document

variable {filePath : Text} {source source' : Source} {options : ParseOptions}
  {updateOptions : UpdateOptions}

/-- No block comment is read with a path that closes it. -/
theorem fitsComments_of_resembles
    (resembles :
      BlockForest.Resembles
        (parse filePath source' options).tree
        ((parse filePath source options).tree.map (Block.updated updateOptions))) :
    (parse filePath source options).FitsComments := by
  intro block member start startEq stop stopEq tag tagEq path pathEq isBlock
  rw [blocks_eq_toList] at member
  have member' :
      block.updated updateOptions ∈
        ((parse filePath source options).tree.map (Block.updated updateOptions)).toList := by
    rw [Forest.toList_map]
    exact List.mem_map_of_mem member
  obtain ⟨block', inParse, _, stopOutline⟩ := resembles.symm.exists_block member'
  rw [← blocks_eq_toList] at inParse
  rw [Block.updated_eq updateOptions startEq, Block.outline, stopEq] at stopOutline
  obtain ⟨stop', stopEq', outlineEq⟩ := Option.map_eq_some_iff.1 stopOutline.symm
  obtain ⟨_, formEq, tagEq', _, _⟩ := Marker.outline_eq_iff.1 outlineEq
  have pathEq' : (start.stopTag updateOptions).filePath = some path := by
    rw [Marker.filePath_stopTag tagEq, pathEq]
  obtain ⟨kind, front, text, back, _, holds⟩ :=
    exists_holds (isStart_of_stop_eq inParse stopEq').1
  exact holds.noClose_path (formEq.trans isBlock) tagEq' pathEq'

/-- Behind a `"` that was the last one, only markers of blocks have tags to be
written with another. -/
theorem isStart_or_meets_of_quotes
    {front back : List Lexeme}
    {found : Marker}
    (lexemesEq : Lexeme.ofText source.text = front ++ back)
    (headEq : (back.flatMap Lexeme.text).head? = some '"')
    (lastQuote : '"' ∉ (back.flatMap Lexeme.text).tail)
    (member :
      found ∈ Lexeme.markersFrom source (Text.byteSize (front.flatMap Lexeme.text)) back)
    (quoted :
      (found.withTag ((parse filePath source options).tagFor updateOptions found)).quotes ≠ 0) :
    found.isStart = true ∨
      ∃ start outer,
        Nesting.Meets options.strictLocationTags
          (pairingItems source (Trivia.extract source.text)) found (some start :: outer) := by
  obtain ⟨tag, tagEq, inTag⟩ := Marker.exists_quote quoted
  obtain ⟨path, pathEq, inPath⟩ :=
    LocationTag.mem_path_of_mem_render inTag (by decide) (by decide)
  have stale : (parse filePath source options).tagFor updateOptions found ≠ found.tag := by
    intro current
    exact
      notMem_path_of_mem_markersFrom lexemesEq headEq lastQuote member (current.symm.trans tagEq)
        pathEq inPath
  have inMarkers :
      found ∈ PairingItem.markers (pairingItems source (Trivia.extract source.text)) := by
    rw [markers_eq_markersFrom, lexemesEq, Lexeme.markersFrom_append, Nat.zero_add]
    exact List.mem_append_right _ member
  obtain ⟨block, blockMember, startEq | stopEq⟩ := exists_block_of_tagFor_ne inMarkers stale
  · obtain ⟨start, startEq', _, isStart⟩ := mem_markers_of_mem_blocks blockMember
    obtain rfl : start = found := Option.some.inj (startEq'.symm.trans startEq)
    exact Or.inl isStart
  · obtain ⟨start, outer, _, meets⟩ := meets_of_stop_eq blockMember stopEq
    exact Or.inr ⟨start, outer, meets⟩

private theorem endsWeight_quotes_of_resembles
    (resembles :
      BlockForest.Resembles
        (parse filePath source' options).tree
        ((parse filePath source options).tree.map (Block.updated updateOptions))) :
    endsWeight Marker.quotes
        (Nesting.after options.strictLocationTags
          (pairingItems source' (Trivia.extract source'.text))).ends =
      endsWeight
        (fun found =>
          (found.withTag ((parse filePath source options).tagFor updateOptions found)).quotes)
        (Nesting.after options.strictLocationTags
          (pairingItems source (Trivia.extract source.text))).ends := by
  rw [BlockForest.Resembles, ← relabel_retagged_tree] at resembles
  have endsEq := congrArg BlockForest.ends resembles
  rw [BlockForest.ends_eraseErrors, BlockForest.ends_eraseErrors,
    ← BlockForest.relabel_outlined, BlockForest.ends_relabel, BlockForest.ends_relabel] at endsEq
  have weightEq := congrArg (endsWeight Marker.quotes) endsEq
  rw [endsWeight_map, endsWeight_map] at weightEq
  rw [← Nesting.ends_finish, ← Nesting.ends_finish]
  exact weightEq

/-- Behind items that come to the same in both texts, the tags read back have no
fewer `"` than those to be written. -/
theorem itemsWeight_le_of_resembles
    {kept rest front back : List PairingItem}
    (resembles :
      BlockForest.Resembles
        (parse filePath source' options).tree
        ((parse filePath source options).tree.map (Block.updated updateOptions)))
    (itemsEq' : pairingItems source' (Trivia.extract source'.text) = kept ++ rest)
    (itemsEq : pairingItems source (Trivia.extract source.text) = front ++ back)
    (keptEq :
      kept.map (PairingItem.mapMarker Marker.outline) =
        front.map
          (PairingItem.mapMarker fun found =>
            (found.withTag
              ((parse filePath source options).tagFor updateOptions found)).outline))
    (used :
      ∀ found ∈ PairingItem.markers back,
        (found.withTag ((parse filePath source options).tagFor updateOptions found)).quotes ≠ 0 →
          found.isStart = true ∨
            ∃ start outer,
              Nesting.Meets options.strictLocationTags
                (pairingItems source (Trivia.extract source.text)) found
                (some start :: outer)) :
    PairingItem.itemsWeight
        (fun found =>
          (found.withTag ((parse filePath source options).tagFor updateOptions found)).quotes)
        back ≤
      PairingItem.itemsWeight Marker.quotes rest := by
  have total := endsWeight_quotes_of_resembles resembles
  rw [itemsEq'] at total
  have before :
      endsWeight Marker.quotes (Nesting.after options.strictLocationTags kept).ends =
        endsWeight
          (fun found =>
            (found.withTag ((parse filePath source options).tagFor updateOptions found)).quotes)
          (Nesting.after options.strictLocationTags front).ends :=
    Nesting.endsWeight_after_congr Marker.quotes
      (.retagged ((parse filePath source options).tagFor updateOptions)) .outlined
      options.strictLocationTags keptEq
  have atMost :=
    Nesting.endsWeight_after_append_le Marker.quotes options.strictLocationTags kept rest
  have atLeast :=
    Nesting.le_endsWeight_after_append
      (fun found =>
        (found.withTag ((parse filePath source options).tagFor updateOptions found)).quotes)
      (inOrder_pairingItems (Trivia.firstFault?_extract source.text)) front back itemsEq used
  omega

/-- No literal goes on to a `"` that has been written. -/
theorem fitsLiterals_of_resembles
    {lexemes' : List Lexeme}
    (rewritten :
      Lexeme.Rewritten source ((parse filePath source options).tagFor updateOptions) 0
        (Lexeme.ofText source.text) lexemes')
    (comments : (parse filePath source options).FitsComments)
    (resembles :
      BlockForest.Resembles
        (parse filePath (Source.ofText (lexemes'.flatMap Lexeme.text)) options).tree
        ((parse filePath source options).tree.map (Block.updated updateOptions))) :
    (parse filePath source options).FitsLiterals source.text := by
  rintro block blockMember start startEq stop stopEq tag tagEq path pathEq inPath
    ⟨front, literal, back, lexemesEq, isVerbatim, headEq, behind⟩
  have lexing : Lexeme.IsLexing true (Lexeme.ofText source.text) :=
    Lexeme.isLexing_ofTextFrom true source.text
  have split : source.text = (Lexeme.ofText source.text).flatMap Lexeme.text :=
    (Lexeme.flatMap_text_ofText source.text).symm
  have fit :
      ∀ found ∈ Lexeme.markersFrom source 0 (Lexeme.ofText source.text),
        Lexeme.TagsFit ((parse filePath source options).tagFor updateOptions) found := by
    intro found member
    rw [← markers_eq_markersFrom] at member
    exact tagsFit_tagFor comments updateOptions member
  have lexemesEq' : Lexeme.ofText source.text = (front ++ [literal]) ++ back := by
    rw [lexemesEq, List.append_assoc, List.singleton_append]
  have stopMember :
      stop ∈
        Lexeme.markersFrom source
          (Text.byteSize ((front ++ [literal]).flatMap Lexeme.text)) back := by
    have inMarkers := (isStart_of_stop_eq blockMember stopEq).1
    rw [markers_eq_markersFrom, lexemesEq', Lexeme.markersFrom_append, Nat.zero_add,
      List.mem_append] at inMarkers
    refine inMarkers.resolve_left fun before => ?_
    have earlier := offset_lt_of_mem_markersFrom before
    omega
  rw [lexemesEq] at rewritten split lexing fit
  obtain ⟨lineBlank, leads, _⟩ := lexing.exists_back
  have lastQuote := leads.shape.quote_notMem_tail isVerbatim headEq
  have literalKind := leads.shape.kind_of_verbatim isVerbatim
  have stopTag :=
    tagFor_stop (Trivia.firstFault?_extract source.text) updateOptions blockMember startEq stopEq
  have stopPath : (start.stopTag updateOptions).filePath = some path := by
    rw [Marker.filePath_stopTag tagEq, pathEq]
  have stale : stop.tag ≠ some (start.stopTag updateOptions) := fun current =>
    notMem_path_of_mem_markersFrom lexemesEq' headEq lastQuote stopMember current stopPath inPath
  have inTag : '"' ∈ (start.stopTag updateOptions).render := by
    simp [LocationTag.render, stopPath, inPath]
  obtain ⟨kept, rest, itemsEq, keptEq, fewer⟩ :=
    rewritten.exists_items_swallowed split lexing fit isVerbatim headEq stopMember stopTag stale
      inTag
  have itemsEq' :
      pairingItems (Source.ofText (lexemes'.flatMap Lexeme.text))
          (Trivia.extract (Source.ofText (lexemes'.flatMap Lexeme.text)).text) =
        kept ++ rest :=
    (pairingItems_eq_itemsFrom _).trans itemsEq
  have itemsSplit := pairingItems_eq_itemsFrom source
  rw [lexemesEq, Lexeme.itemsFrom_literal literalKind, Nat.zero_add] at itemsSplit
  have noFewer :=
    itemsWeight_le_of_resembles resembles itemsEq' itemsSplit keptEq fun found member =>
      isStart_or_meets_of_quotes lexemesEq' headEq lastQuote member
  exact absurd fewer (Nat.not_lt.2 noFewer)

/-- The rewritten text reads back as the updated blocks just if every tag fits. -/
theorem resembles_rewritten_iff
    {lexemes' : List Lexeme}
    (rewritten :
      Lexeme.Rewritten source ((parse filePath source options).tagFor updateOptions) 0
        (Lexeme.ofText source.text) lexemes') :
    BlockForest.Resembles
        (parse filePath (Source.ofText (lexemes'.flatMap Lexeme.text)) options).tree
        ((parse filePath source options).tree.map (Block.updated updateOptions)) ↔
      (parse filePath source options).FitsComments ∧
        (parse filePath source options).FitsLiterals source.text := by
  constructor
  · intro resembles
    have comments := fitsComments_of_resembles resembles
    exact ⟨comments, fitsLiterals_of_resembles rewritten comments resembles⟩
  · rintro ⟨comments, literals⟩
    exact resembles_rewritten rewritten comments literals

/-- The new text has the lines of the old one, and it reads back as the updated
document just if every tag fits. -/
theorem reads_back_iff
    (small : source.size < wordLimit)
    (filePath : Text)
    (updateOptions : UpdateOptions) :
    ∃ update,
      (parse filePath source .lenient).updateTags? source updateOptions = some update ∧
        (update.newSource source).lineCount = source.lineCount ∧
        ((parse filePath (update.newSource source) .lenient).tree.map Block.outline =
              update.document.tree.map Block.outline ∧
            (parse filePath (update.newSource source) .lenient).problems.map
                ParseProblem.outline =
              update.document.problems.map ParseProblem.outline ↔
          (parse filePath source .lenient).FitsComments ∧
            (parse filePath source .lenient).FitsLiterals source.text) := by
  obtain ⟨lexemes', update, rewritten, updateEq, documentEq, newEq⟩ :=
    exists_update filePath .lenient small updateOptions
  refine ⟨update, updateEq, ?_, ?_⟩
  · rw [newEq]
    exact lineCount_rewritten rewritten
  · rw [newEq, documentEq]
    constructor
    · rintro ⟨treeEq, _⟩
      exact (resembles_rewritten_iff rewritten).1 (congrArg BlockForest.eraseErrors treeEq)
    · rintro ⟨comments, literals⟩
      exact outline_parse_rewritten rewritten comments literals

/-- A region that has moved since its tag was written, with its end in a comment
of the other form. -/
def driftedText : Text :=
  "\n/* Macro A #lib/a.cs#1 */\n// EndMacro #1\n".toList

theorem fits_driftedText :
    (Source.ofText driftedText).size < wordLimit ∧
      (parse [] (Source.ofText driftedText) .lenient).FitsComments ∧
      (parse [] (Source.ofText driftedText) .lenient).FitsLiterals driftedText := by
  refine ⟨by decide +kernel, ?_, fitsLiterals_of_notMem (by decide +kernel) driftedText⟩
  unfold FitsComments
  decide +kernel

theorem reads_back_driftedText :
    (Source.ofText driftedText).size < wordLimit ∧
      ∃ update,
        (parse [] (Source.ofText driftedText) .lenient).updateTags? (Source.ofText driftedText)
            ⟨false⟩ =
          some update ∧
          (parse [] (update.newSource (Source.ofText driftedText)) .lenient).tree.map
              Block.outline =
            update.document.tree.map Block.outline := by
  obtain ⟨small, fits⟩ := fits_driftedText
  obtain ⟨update, updateEq, _, readsBack⟩ := reads_back_iff small [] ⟨false⟩
  exact ⟨small, update, updateEq, (readsBack.2 fits).1⟩

/-- A region with a path that a verbatim literal swallows when it is written into
the end. -/
def quotedText : Text :=
  "// Macro #x\"y#3\n@\"a\"\"\n// EndMacro\n".toList

private theorem exists_update_quotedText :
    ∃ update,
      (parse [] (Source.ofText quotedText) .lenient).updateTags? (Source.ofText quotedText)
          ⟨false⟩ =
        some update ∧
        update.document =
          { parse [] (Source.ofText quotedText) .lenient with
            tree :=
              (parse [] (Source.ofText quotedText) .lenient).tree.map
                (Block.updated ⟨false⟩) } ∧
        update.content.getD quotedText =
          "// Macro #x\"y#1\n@\"a\"\"\n// EndMacro #x\"y#1\n".toList :=
  exists_updateTags?_of_ordered ⟨false⟩ (by decide +kernel) (by decide +kernel)

/-- A path with a `"` may be swallowed, though it closes no comment. -/
theorem not_reads_back_quotedText :
    ¬∀ filePath source updateOptions,
      (∀ block ∈ (parse filePath source .lenient).blocks, ∀ start ∈ block.start,
          ∀ tag ∈ start.tag, ∀ path ∈ tag.filePath, Lexeme.NoClose path) →
        ∃ update,
          (parse filePath source .lenient).updateTags? source updateOptions = some update ∧
            (parse filePath (update.newSource source) .lenient).tree.map Block.outline =
              update.document.tree.map Block.outline ∧
            (parse filePath (update.newSource source) .lenient).problems.map
                ParseProblem.outline =
              update.document.problems.map ParseProblem.outline ∧
            (update.newSource source).lineCount = source.lineCount := by
  intro readsBack
  obtain ⟨update, updateEq, treeEq, _⟩ :=
    readsBack [] (Source.ofText quotedText) ⟨false⟩ (by decide +kernel)
  obtain ⟨update', updateEq', documentEq, contentEq⟩ := exists_update_quotedText
  obtain rfl : update = update' := Option.some.inj (updateEq.symm.trans updateEq')
  have textEq : (Source.ofText quotedText).text = quotedText := rfl
  rw [DocumentUpdate.newSource, textEq, contentEq, documentEq] at treeEq
  exact absurd treeEq (by decide +kernel)

end MacroRegions.Document

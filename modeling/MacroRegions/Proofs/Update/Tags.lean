import MacroRegions.Proofs.Nesting.Blocks
import MacroRegions.Proofs.Update.Rewriting
import MacroRegions.Proofs.Update.Tree

/-!
The tags that the markers of a document should have.

A start marker has one of its own, and the end marker of a block has that of the
block's start. An end marker that ends no block keeps what it has.
-/

namespace MacroRegions

private theorem Payload.parse?_of_tag_ofPiece
    {rest : Piece}
    {tag : LocationTag}
    (tagEq : (Payload.ofPiece rest).tag = some tag) :
    LocationTag.parse? (Text.splitLastWord (Text.trimEnd rest.text)).2 = some tag := by
  cases reads : LocationTag.parse? (Text.splitLastWord (Text.trimEnd rest.text)).2 with
  | none => simp [Payload.ofPiece, reads] at tagEq
  | some found =>
      simp only [Payload.ofPiece, reads] at tagEq
      exact tagEq

/-- The tag of a marker is read from a word of the marker's content. -/
theorem PairingItem.exists_word_of_tag
    {kind : TriviaKind}
    {position : Position}
    {whole : Piece}
    {found : Marker}
    {tag : LocationTag}
    (isMarker : ofPiece? kind position whole = some (.marker found))
    (tagEq : found.tag = some tag) :
    ∃ content word,
      Candidate.inner? kind whole = some content ∧
        word <:+: content.text ∧
        Text.BlankFree word ∧
        LocationTag.parse? word = some tag := by
  obtain ⟨content, candidateKind, keyword, keywordText, innerEq, _, _, rfl⟩ :=
    ofPiece?_eq_marker_iff.1 isMarker
  have reads := Payload.parse?_of_tag_ofPiece tagEq
  refine ⟨content, _, innerEq, ?_, Text.blankFree_splitLastWord _, reads⟩
  have inTrimmed :
      (Text.splitLastWord (Text.trimEnd (content.text.drop keywordText.length))).2 <:+:
        Text.trimEnd (content.text.drop keywordText.length) :=
    ⟨_, [], by rw [List.append_nil, Text.splitLastWord_append]⟩
  exact
    (inTrimmed.trans (Text.trimEnd_isPrefix _).isInfix).trans (List.drop_suffix _ _).isInfix

/-- The tag of a marker could have been written. -/
theorem PairingItem.isWritable_of_tag
    {kind : TriviaKind}
    {position : Position}
    {whole : Piece}
    {found : Marker}
    {tag : LocationTag}
    (isMarker : ofPiece? kind position whole = some (.marker found))
    (tagEq : found.tag = some tag) :
    tag.IsWritable := by
  obtain ⟨_, word, _, _, wordFree, reads⟩ := exists_word_of_tag isMarker tagEq
  exact LocationTag.isWritable_of_parse? reads wordFree

/-- The path in the tag of a marker is in the text of its comment or
directive. -/
theorem Lexeme.Shape.path_isInfix
    {lineBlank : Bool}
    {kind : TriviaKind}
    {text rest path : Text}
    {position : Position}
    {offset : Nat}
    {found : Marker}
    {tag : LocationTag}
    (shape : Shape lineBlank rest ⟨.trivia kind, text⟩)
    (isMarker :
      PairingItem.ofPiece? kind position ⟨offset, text⟩ = some (.marker found))
    (tagEq : found.tag = some tag)
    (pathEq : tag.filePath = some path) :
    path <:+: text := by
  obtain ⟨content, word, innerEq, inContent, _, reads⟩ :=
    PairingItem.exists_word_of_tag isMarker tagEq
  obtain ⟨front, back, textEq, _⟩ := shape.isFramed rfl innerEq
  have inText : content.text <:+: text := ⟨front, back, textEq.symm⟩
  exact ((LocationTag.path_infix_of_parse? reads pathEq).trans inContent).trans inText

namespace Document

variable {filePath : Text} {source : Source} {trivia : List Trivia} {options : ParseOptions}

/-- The tag that a marker of a document should have. -/
def tagFor (document : Document) (options : UpdateOptions) (marker : Marker) :
    Option LocationTag :=
  if marker.isStart then
    marker.resolvedTag options
  else
    match document.blocks.find? (·.stop = some marker) with
    | some block => (block.updated options).stop.bind (·.tag)
    | none => marker.tag

theorem tagFor_start
    (document : Document)
    (updateOptions : UpdateOptions)
    {start : Marker}
    (isStart : start.isStart = true) :
    document.tagFor updateOptions start = start.resolvedTag updateOptions := by
  rw [tagFor, if_pos isStart]

theorem tagFor_stop
    {block : Block}
    {start stop : Marker}
    (accepted : Trivia.firstFault? source.text trivia = none)
    (updateOptions : UpdateOptions)
    (member : block ∈ (ofTrivia filePath source trivia options).blocks)
    (startEq : block.start = some start)
    (stopEq : block.stop = some stop) :
    (ofTrivia filePath source trivia options).tagFor updateOptions stop =
      some (start.stopTag updateOptions) := by
  have notStart := (isStart_of_stop_eq member stopEq).2
  have found :
      (ofTrivia filePath source trivia options).blocks.find? (·.stop = some stop) =
        some block := by
    cases search :
        (ofTrivia filePath source trivia options).blocks.find? (·.stop = some stop) with
    | none =>
        have missing := List.find?_eq_none.1 search block member
        simp [stopEq] at missing
    | some other =>
        have otherEq : other.stop = some stop := by simpa using List.find?_some search
        rw [eq_of_stop_eq accepted (List.mem_of_find?_eq_some search) member otherEq stopEq]
  rw [tagFor, notStart, if_neg (by decide), found]
  simp [Block.updated_eq updateOptions startEq, stopEq, Marker.withTag]

/-- Only the markers of blocks should have other tags than they have. -/
theorem exists_block_of_tagFor_ne
    {found : Marker}
    {updateOptions : UpdateOptions}
    (member : found ∈ PairingItem.markers (pairingItems source trivia))
    (stale :
      (ofTrivia filePath source trivia options).tagFor updateOptions found ≠ found.tag) :
    ∃ block ∈ (ofTrivia filePath source trivia options).blocks,
      block.start = some found ∨ block.stop = some found := by
  cases isStart : found.isStart with
  | true =>
      obtain ⟨block, blockMember, startEq⟩ := exists_block_of_isStart member isStart
      exact ⟨block, blockMember, Or.inl startEq⟩
  | false =>
      cases search :
          (ofTrivia filePath source trivia options).blocks.find? (·.stop = some found) with
      | none => simp [tagFor, isStart, search] at stale
      | some block =>
          exact
            ⟨block, List.mem_of_find?_eq_some search,
              Or.inr (by simpa using List.find?_some search)⟩

/-- Markers that should have other tags should have some. -/
theorem exists_tagFor_of_ne
    {found : Marker}
    {updateOptions : UpdateOptions}
    (accepted : Trivia.firstFault? source.text trivia = none)
    (member : found ∈ PairingItem.markers (pairingItems source trivia))
    (stale :
      (ofTrivia filePath source trivia options).tagFor updateOptions found ≠ found.tag) :
    ∃ tag, (ofTrivia filePath source trivia options).tagFor updateOptions found = some tag := by
  obtain ⟨block, blockMember, startEq | stopEq⟩ := exists_block_of_tagFor_ne member stale
  · obtain ⟨start, startEq', _, isStart⟩ := mem_markers_of_mem_blocks blockMember
    obtain rfl : start = found := Option.some.inj (startEq'.symm.trans startEq)
    rw [tagFor_start _ _ isStart] at stale ⊢
    cases resolved : start.resolvedTag updateOptions with
    | none =>
        rw [resolved, Marker.tag_eq_none_of_resolvedTag resolved] at stale
        exact absurd rfl stale
    | some tag => exact ⟨tag, rfl⟩
  · obtain ⟨start, startEq, _, _⟩ := mem_markers_of_mem_blocks blockMember
    exact ⟨_, tagFor_stop accepted updateOptions blockMember startEq stopEq⟩

def editFor? (document : Document) (options : UpdateOptions) (found : Marker) :
    Option TextEdit :=
  found.edit? (found.withTag (document.tagFor options found))

private theorem edits_updated
    {block : Block}
    (accepted : Trivia.firstFault? source.text trivia = none)
    (updateOptions : UpdateOptions)
    (member : block ∈ (ofTrivia filePath source trivia options).blocks) :
    block.edits (block.updated updateOptions) =
      block.markers.filterMap
        ((ofTrivia filePath source trivia options).editFor? updateOptions) := by
  obtain ⟨start, startEq, _, isStart⟩ := mem_markers_of_mem_blocks member
  have startTag := tagFor_start (ofTrivia filePath source trivia options) updateOptions isStart
  rw [Block.updated_eq updateOptions startEq, Block.edits, Block.markers, startEq]
  cases stopEq : block.stop with
  | none =>
      cases edited : start.edit? (start.withTag (start.resolvedTag updateOptions)) <;>
        simp [markerEdits, editFor?, startTag, edited]
  | some stop =>
      have stopTag := tagFor_stop accepted updateOptions member startEq stopEq
      cases edited : start.edit? (start.withTag (start.resolvedTag updateOptions)) <;>
        cases stopEdited : stop.edit? (stop.withTag (some (start.stopTag updateOptions))) <;>
          simp [markerEdits, editFor?, startTag, stopTag, edited, stopEdited]

private theorem filterMap_editFor?_eq_filter
    (updateOptions : UpdateOptions) :
    (PairingItem.markers (pairingItems source trivia)).filterMap
        ((ofTrivia filePath source trivia options).editFor? updateOptions) =
      ((PairingItem.markers (pairingItems source trivia)).filter fun found =>
          found ∈ (ofTrivia filePath source trivia options).blocks.flatMap
            Block.markers).filterMap
        ((ofTrivia filePath source trivia options).editFor? updateOptions) := by
  rw [List.filterMap_filter]
  refine List.filterMap_congr fun found member => ?_
  split
  · rfl
  next notListed =>
    have current :
        (ofTrivia filePath source trivia options).tagFor updateOptions found = found.tag := by
      by_contra stale
      obtain ⟨block, blockMember, inBlock⟩ := exists_block_of_tagFor_ne member stale
      have listed :=
        List.mem_flatMap.2 ⟨block, blockMember, Block.mem_markers_iff.2 inBlock⟩
      simp [listed] at notListed
    exact Lexeme.edit?_of_current current

/-- The edits of an update are those of the markers of all blocks. -/
theorem edits_update_eq_filterMap
    (accepted : Trivia.firstFault? source.text trivia = none)
    (updateOptions : UpdateOptions) :
    BlockForest.edits (ofTrivia filePath source trivia options).tree
        (BlockForest.update updateOptions
          (ofTrivia filePath source trivia options).tree).tree =
      ((ofTrivia filePath source trivia options).blocks.flatMap Block.markers).filterMap
        ((ofTrivia filePath source trivia options).editFor? updateOptions) := by
  rw [BlockForest.edits_update, List.filterMap_flatMap, ← blocks_eq_toList]
  exact List.flatMap_congr fun block member => edits_updated accepted updateOptions member

/-- The edits of an update are the edits of all markers of the text, in another
order. -/
theorem perm_edits_update
    (accepted : Trivia.firstFault? source.text trivia = none)
    (updateOptions : UpdateOptions) :
    (BlockForest.edits (ofTrivia filePath source trivia options).tree
        (BlockForest.update updateOptions
          (ofTrivia filePath source trivia options).tree).tree).Perm
      ((PairingItem.markers (pairingItems source trivia)).filterMap
        ((ofTrivia filePath source trivia options).editFor? updateOptions)) := by
  rw [edits_update_eq_filterMap accepted, filterMap_editFor?_eq_filter]
  refine List.Perm.filterMap _ ?_
  refine
    (List.perm_ext_iff_of_nodup (nodup_markers accepted)
      ((inOrder_pairingItems accepted).nodup.filter _)).2 fun found => ?_
  rw [List.mem_filter]
  constructor
  · intro listed
    exact ⟨mem_markers_of_mem_flatMap listed, decide_eq_true listed⟩
  · exact fun listed => of_decide_eq_true listed.2

end Document

end MacroRegions

import MacroRegions.Proofs.Update.Writing

/-!
Tags that fit where they are written.

The tag of a start marker is written into the end marker of the block, in whatever
comment that is. It does not fit if it closes the comment, or if a `"` in it is one
that a verbatim literal before it was missing. All other tags fit.
-/

namespace MacroRegions

/-- Whether before an offset there is a verbatim literal with a `"` right behind
it. The literal ends there only for want of a further `"` in the text. -/
def Text.HasOpenQuote (text : Text) (offset : Nat) : Prop :=
  ∃ front literal back,
    Lexeme.ofText text = front ++ literal :: back ∧
      ['@', '"'] <+: literal.text ∧
      (back.flatMap Lexeme.text).head? = some '"' ∧
      Text.byteSize ((front ++ [literal]).flatMap Lexeme.text) ≤ offset

namespace Document

/-- No end marker in a block comment belongs to a start marker with a path that
closes the comment. -/
def FitsComments (document : Document) : Prop :=
  ∀ block ∈ document.blocks, ∀ start ∈ block.start, ∀ stop ∈ block.stop,
    ∀ tag ∈ start.tag, ∀ path ∈ tag.filePath,
      stop.form = .blockComment → Lexeme.NoClose path

/-- No end marker behind an open `"` belongs to a start marker with a path that
has one. -/
def FitsLiterals (document : Document) (text : Text) : Prop :=
  ∀ block ∈ document.blocks, ∀ start ∈ block.start, ∀ stop ∈ block.stop,
    ∀ tag ∈ start.tag, ∀ path ∈ tag.filePath,
      '"' ∈ path → ¬ text.HasOpenQuote stop.position.start.offset

end Document

theorem Document.fitsLiterals_of_notMem
    {document : Document}
    (noQuote :
      ∀ block ∈ document.blocks, ∀ start ∈ block.start, ∀ tag ∈ start.tag,
        ∀ path ∈ tag.filePath, '"' ∉ path)
    (text : Text) :
    document.FitsLiterals text := by
  intro block member start startEq stop _ tag tagEq path pathEq inPath
  exact absurd inPath (noQuote block member start startEq tag tagEq path pathEq)

namespace Marker

private theorem exists_tag_of_resolvedTag
    {updateOptions : UpdateOptions}
    {start : Marker}
    {tag : LocationTag}
    {path : Text}
    (tagEq : start.resolvedTag updateOptions = some tag)
    (pathEq : tag.filePath = some path) :
    ∃ own, start.tag = some own ∧ own.filePath = some path := by
  unfold resolvedTag at tagEq
  split at tagEq
  next own ownEq =>
    refine ⟨own, ownEq, ?_⟩
    split at tagEq
    · obtain rfl := Option.some.inj tagEq
      exact pathEq
    · obtain rfl := Option.some.inj tagEq
      exact pathEq
  next =>
    split at tagEq
    · obtain rfl := Option.some.inj tagEq
      simp [LocationTag.here] at pathEq
    · simp at tagEq

private theorem exists_tag_of_stopTag
    {updateOptions : UpdateOptions}
    {start : Marker}
    {path : Text}
    (pathEq : (start.stopTag updateOptions).filePath = some path) :
    ∃ own, start.tag = some own ∧ own.filePath = some path := by
  unfold stopTag at pathEq
  cases tagEq : start.resolvedTag updateOptions with
  | none => simp [tagEq, LocationTag.here] at pathEq
  | some tag =>
      rw [tagEq, Option.getD_some] at pathEq
      exact exists_tag_of_resolvedTag tagEq pathEq

end Marker

theorem Marker.filePath_stopTag
    {start : Marker}
    {own : LocationTag}
    (ownEq : start.tag = some own)
    (updateOptions : UpdateOptions) :
    (start.stopTag updateOptions).filePath = own.filePath := by
  by_cases current : own.line = start.line
  · simp [stopTag, resolvedTag, ownEq, current]
  · simp [stopTag, resolvedTag, ownEq, current]

/-- The path of a marker in a block comment does not close the comment. -/
theorem Lexeme.Holds.noClose_path
    {source : Source}
    {offset : Nat}
    {found : Marker}
    {kind : TriviaKind}
    {front back : List Lexeme}
    {text path : Text}
    {tag : LocationTag}
    (holds : Holds source offset found kind front text back)
    (isBlock : found.form = .blockComment)
    (tagEq : found.tag = some tag)
    (pathEq : tag.filePath = some path) :
    NoClose path := by
  obtain rfl : kind = .blockComment := by
    have formEq := (PairingItem.place_of_ofPiece? holds.isMarker).1
    rw [isBlock] at formEq
    cases kind <;> simp [MarkerForm.ofTriviaKind] at formEq ⊢
  obtain ⟨lineBlank, shape⟩ := holds.shape
  obtain ⟨content, word, innerEq, inContent, _, reads⟩ :=
    PairingItem.exists_word_of_tag holds.isMarker tagEq
  obtain ⟨before, after, textEq, _, frame, _⟩ := shape.isFramed rfl innerEq
  have nonempty : content.text ≠ [] := by
    intro none
    rw [none, List.infix_nil] at inContent
    simp [inContent, LocationTag.parse?] at reads
  obtain ⟨opened, closed, rfl, rfl⟩ := (frame nonempty).exists_block
  have whole : text = '/' :: '*' :: ((opened ++ content.text ++ closed) ++ ['*', '/']) := by
    refine textEq.trans ?_
    simp
  have inWhole : content.text <:+: opened ++ content.text ++ closed ++ ['*'] :=
    ⟨opened, closed ++ ['*'], by simp⟩
  exact
    (shape.noClose whole).of_isInfix
      (((LocationTag.path_infix_of_parse? reads pathEq).trans inContent).trans inWhole)

namespace Document

variable {filePath : Text} {source : Source} {options : ParseOptions} {found : Marker}

theorem tagsFit_tagFor
    (fits : (parse filePath source options).FitsComments)
    (updateOptions : UpdateOptions)
    (member :
      found ∈ PairingItem.markers (pairingItems source (Trivia.extract source.text))) :
    Lexeme.TagsFit ((parse filePath source options).tagFor updateOptions) found := by
  intro isBlock tag tagEq stale path pathEq
  have different : (parse filePath source options).tagFor updateOptions found ≠ found.tag := by
    rw [tagEq]
    exact Ne.symm stale
  obtain ⟨block, blockMember, startEq | stopEq⟩ := exists_block_of_tagFor_ne member different
  · obtain ⟨start, startEq', _, isStart⟩ := mem_markers_of_mem_blocks blockMember
    obtain rfl : start = found := Option.some.inj (startEq'.symm.trans startEq)
    rw [tagFor_start (parse filePath source options) updateOptions isStart] at tagEq
    obtain ⟨own, ownEq, ownPath⟩ := Marker.exists_tag_of_resolvedTag tagEq pathEq
    obtain ⟨kind, front, text, back, _, holds⟩ := exists_holds member
    exact holds.noClose_path isBlock ownEq ownPath
  · obtain ⟨start, startEq, _, _⟩ := mem_markers_of_mem_blocks blockMember
    have stopTag :=
      tagFor_stop (Trivia.firstFault?_extract source.text) updateOptions blockMember startEq
        stopEq
    obtain rfl := Option.some.inj (stopTag.symm.trans tagEq)
    obtain ⟨own, ownEq, ownPath⟩ := Marker.exists_tag_of_stopTag pathEq
    exact fits block blockMember start startEq found stopEq own ownEq path ownPath isBlock

private theorem exists_holds_of_back
    {front back : List Lexeme}
    (lexemesEq : Lexeme.ofText source.text = front ++ back)
    (member :
      found ∈ Lexeme.markersFrom source (Text.byteSize (front.flatMap Lexeme.text)) back) :
    ∃ kind inner text behind,
      back = inner ++ ⟨.trivia kind, text⟩ :: behind ∧
        Lexeme.Holds source (Text.byteSize (front.flatMap Lexeme.text)) found kind inner text
          behind := by
  have lexing : Lexeme.IsLexing true (front ++ back) := by
    rw [← lexemesEq]
    exact Lexeme.isLexing_ofTextFrom true source.text
  obtain ⟨lineBlank, lexingBack⟩ := lexing.exists_back
  exact Lexeme.exists_holds lexingBack member

/-- A marker behind some lexemes begins behind them. -/
theorem le_offset_of_mem_markersFrom
    {front back : List Lexeme}
    (lexemesEq : Lexeme.ofText source.text = front ++ back)
    (member :
      found ∈ Lexeme.markersFrom source (Text.byteSize (front.flatMap Lexeme.text)) back) :
    Text.byteSize (front.flatMap Lexeme.text) ≤ found.position.start.offset := by
  obtain ⟨kind, inner, text, behind, rfl, holds⟩ := exists_holds_of_back lexemesEq member
  have positionEq := (PairingItem.place_of_ofPiece? holds.isMarker).2
  have textEq := Lexeme.flatMap_text_ofText source.text
  have sizeEq := source.size_eq
  rw [← textEq, lexemesEq, List.flatMap_append, Text.byteSize_append] at sizeEq
  have offsetEq :
      found.position.start.offset =
        min (Text.byteSize (front.flatMap Lexeme.text) +
          Text.byteSize (inner.flatMap Lexeme.text)) source.size := by
    rw [positionEq]
    rfl
  omega

/-- A marker among lexemes begins before their end. -/
theorem offset_lt_of_mem_markersFrom
    {offset : Nat}
    {lexemes : List Lexeme}
    (member : found ∈ Lexeme.markersFrom source offset lexemes) :
    found.position.start.offset < offset + Text.byteSize (lexemes.flatMap Lexeme.text) := by
  induction lexemes generalizing offset with
  | nil => simp [Lexeme.markersFrom, Lexeme.itemsFrom, PairingItem.markers] at member
  | cons lexeme rest inductionHypothesis =>
      rw [List.flatMap_cons, Text.byteSize_append, ← Nat.add_assoc]
      rcases Lexeme.mem_markersFrom_cons.1 member with here | later
      · obtain ⟨kind, _, isMarker⟩ := Lexeme.item?_eq_some here
        have positionEq := (PairingItem.place_of_ofPiece? isMarker).2
        have offsetEq : found.position.start.offset = min offset source.size := by
          rw [positionEq]
          rfl
        have nonempty : lexeme.text ≠ [] := by
          intro none
          have noContent : Candidate.contentOf? kind ⟨offset, []⟩ = .none := by
            cases kind <;> rfl
          rw [none, PairingItem.ofPiece?, noContent] at isMarker
          simp at isMarker
        have some : 0 < Text.byteSize lexeme.text :=
          Nat.lt_of_lt_of_le (List.length_pos_iff.2 nonempty) (Text.length_le_byteSize _)
        omega
      · exact inductionHypothesis later

/-- The path of a marker is behind the first character of the text that the
marker is in, and that character opens no literal. -/
theorem mem_tail_of_path_isInfix
    {lexemes inner behind : List Lexeme}
    {kind : TriviaKind}
    {text path : Text}
    {lineBlank : Bool}
    {c : Char}
    (split : lexemes = inner ++ ⟨.trivia kind, text⟩ :: behind)
    (shape : Lexeme.Shape lineBlank (behind.flatMap Lexeme.text) ⟨.trivia kind, text⟩)
    (headEq : (lexemes.flatMap Lexeme.text).head? = some c)
    (notOpening : c ≠ '/' ∧ c ≠ '#')
    (inText : path <:+: text)
    (inPath : c ∈ path) :
    c ∈ (lexemes.flatMap Lexeme.text).tail := by
  have member : c ∈ text := inText.subset inPath
  rw [split, List.flatMap_append, List.flatMap_cons] at headEq ⊢
  cases innerEq : inner.flatMap Lexeme.text with
  | nil =>
      rw [innerEq, List.nil_append, List.head?_append] at headEq
      rcases shape.opens with slash | hash
      · rw [slash] at headEq
        exact absurd (Option.some.inj headEq).symm notOpening.1
      · rw [hash] at headEq
        exact absurd (Option.some.inj headEq).symm notOpening.2
  | cons d rest => simp [member]

/-- If no `"` is behind the first character of some lexemes, then none is in the
path of a marker among them. -/
theorem notMem_path_of_mem_markersFrom
    {front back : List Lexeme}
    {tag : LocationTag}
    {path : Text}
    (lexemesEq : Lexeme.ofText source.text = front ++ back)
    (headEq : (back.flatMap Lexeme.text).head? = some '"')
    (lastQuote : '"' ∉ (back.flatMap Lexeme.text).tail)
    (member :
      found ∈ Lexeme.markersFrom source (Text.byteSize (front.flatMap Lexeme.text)) back)
    (tagEq : found.tag = some tag)
    (pathEq : tag.filePath = some path) :
    '"' ∉ path := by
  intro inPath
  obtain ⟨kind, inner, text, behind, backEq, holds⟩ := exists_holds_of_back lexemesEq member
  obtain ⟨lineBlank, shape⟩ := holds.shape
  have inText := shape.path_isInfix holds.isMarker tagEq pathEq
  exact lastQuote (mem_tail_of_path_isInfix backEq shape headEq (by decide) inText inPath)

theorem quotesFit_tagFor
    (fits : (parse filePath source options).FitsLiterals source.text)
    (updateOptions : UpdateOptions) :
    Lexeme.QuotesFit source ((parse filePath source options).tagFor updateOptions) 0
      (Lexeme.ofText source.text) := by
  intro front literal back split isVerbatim headEq noQuote found member tag tagEq stale inTag
  have split' : Lexeme.ofText source.text = (front ++ [literal]) ++ back := by
    rw [split, List.append_assoc, List.singleton_append]
  rw [Nat.zero_add] at member
  have inMarkers :
      found ∈ PairingItem.markers (pairingItems source (Trivia.extract source.text)) := by
    rw [markers_eq_markersFrom, split', Lexeme.markersFrom_append, Nat.zero_add]
    exact List.mem_append_right _ member
  have different : (parse filePath source options).tagFor updateOptions found ≠ found.tag := by
    rw [tagEq]
    exact Ne.symm stale
  obtain ⟨path, pathEq, inPath⟩ :=
    LocationTag.mem_path_of_mem_render inTag (by decide) (by decide)
  obtain ⟨block, blockMember, startEq | stopEq⟩ :=
    exists_block_of_tagFor_ne inMarkers different
  · -- a start marker has had the path before, so the text has had its quote
    obtain ⟨start, startEq', _, isStart⟩ := mem_markers_of_mem_blocks blockMember
    obtain rfl : start = found := Option.some.inj (startEq'.symm.trans startEq)
    rw [tagFor_start (parse filePath source options) updateOptions isStart] at tagEq
    obtain ⟨own, ownEq, ownPath⟩ := Marker.exists_tag_of_resolvedTag tagEq pathEq
    exact
      notMem_path_of_mem_markersFrom split' headEq noQuote member ownEq ownPath inPath
  · obtain ⟨start, startEq, _, _⟩ := mem_markers_of_mem_blocks blockMember
    have stopTag :=
      tagFor_stop (Trivia.firstFault?_extract source.text) updateOptions blockMember startEq
        stopEq
    obtain rfl := Option.some.inj (stopTag.symm.trans tagEq)
    obtain ⟨own, ownEq, ownPath⟩ := Marker.exists_tag_of_stopTag pathEq
    exact
      fits block blockMember start startEq found stopEq own ownEq path ownPath inPath
        ⟨front, literal, back, split, isVerbatim, headEq,
          le_offset_of_mem_markersFrom split' member⟩

end Document

end MacroRegions

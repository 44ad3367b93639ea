import MacroRegions.Proofs.Marker.Rewriting
import MacroRegions.Proofs.Text.Phrases

/-!
Sketches of markers.

A sketch says what a marker is to be, and is written with one space between the parts
of the marker. What is written is one comment or directive when the line ends behind
it, and it is read as the marker that the sketch is of.
-/

namespace MacroRegions

def TriviaKind.opening : TriviaKind → Text
  | lineComment => ['/', '/']
  | blockComment => ['/', '*']
  | regionDirective => '#' :: Directive.opening.keyword
  | endRegionDirective => '#' :: Directive.closing.keyword

def TriviaKind.closing : TriviaKind → Text
  | blockComment => [' ', '*', '/']
  | _ => []

private theorem frame_opening_closing (kind : TriviaKind) :
    Frame kind (kind.opening ++ [' ']) kind.closing := by
  have noBlank : Text.AllBlank [] := by simp [Text.AllBlank]
  have oneLine : '\n' ∉ [' '] ++ [] := by decide
  cases kind with
  | lineComment => exact .lineComment [] [' '] [] (by simp) Text.allBlank_space noBlank oneLine
  | blockComment =>
      exact
        .blockComment [] [' '] [' '] [] (by simp) Text.allBlank_space Text.allBlank_space
          (by simp)
  | regionDirective =>
      exact .directive .opening [] [' '] [] (by simp) (by simp) Text.allBlank_space noBlank oneLine
  | endRegionDirective =>
      exact .directive .closing [] [' '] [] (by simp) (by simp) Text.allBlank_space noBlank oneLine

private theorem Text.IsPhrase.isSolid
    {kind : TriviaKind}
    {content : Text}
    (isPhrase : content.IsPhrase)
    (notBlock : kind ≠ .blockComment)
    (notSlash : kind = .lineComment → content.head? ≠ some '/') :
    IsSolid kind content where
  nonempty := isPhrase.nonempty
  starts := isPhrase.starts
  ends := isPhrase.ends
  oneLine := fun _ => isPhrase.oneLine
  lineFirst := notSlash
  blockFirst := fun isBlock => absurd isBlock notBlock
  blockLast := fun isBlock => absurd isBlock notBlock

/-- A phrase in a block comment is found there even if it begins or ends with a
star. -/
theorem Candidate.inner?_blockComment
    {content : Text}
    (isPhrase : content.IsPhrase)
    (offset : Nat) :
    inner? .blockComment ⟨offset, '/' :: '*' :: ' ' :: (content ++ [' ', '*', '/'])⟩ =
      some ⟨offset + 3, content⟩ := by
  have opened :
      Text.afterPrefix? ['/', '*'] ('/' :: '*' :: ' ' :: (content ++ [' ', '*', '/'])) =
        some (' ' :: (content ++ [' ', '*', '/'])) := by
    simp [Text.afterPrefix?]
  have closed :
      Text.beforeSuffix? ['*', '/'] (' ' :: (content ++ [' ', '*', '/'])) =
        some (' ' :: (content ++ [' '])) :=
    Text.beforeSuffix?_eq_some_iff.2 (by simp)
  have leading :
      (⟨offset + 2, [] ++ ' ' :: (content ++ [' '])⟩ : Piece).dropLeading '*' =
        ⟨offset + 2, ' ' :: (content ++ [' '])⟩ :=
    Piece.dropLeading_append (offset + 2) (by simp) (by simp)
  have trailing :
      (⟨offset + 2, ' ' :: (content ++ [' ']) ++ []⟩ : Piece).dropTrailing '*' =
        ⟨offset + 2, ' ' :: (content ++ [' '])⟩ := by
    refine Piece.dropTrailing_append (offset + 2) (by simp) ?_
    rw [← List.cons_append, List.getLast?_concat]
    decide
  have trimmed :
      (⟨offset + 2, [' '] ++ content ++ [' ']⟩ : Piece).trim =
        ⟨offset + 2 + Text.byteSize [' '], content⟩ :=
    Piece.trim_append_append (offset + 2) Text.allBlank_space isPhrase.nonempty isPhrase.starts
      isPhrase.ends Text.allBlank_space
  simp only [List.nil_append, List.append_nil, List.cons_append] at leading trailing trimmed
  simp only [inner?, commentInner?, opened, Option.bind_eq_bind, Option.bind_some, closed,
    leading, trailing, Option.map_some, trimmed]
  rfl

/-- A phrase is the content of the comment or the directive that it is written
in. -/
theorem Candidate.inner?_written
    {kind : TriviaKind}
    {content : Text}
    (isPhrase : content.IsPhrase)
    (notSlash : kind = .lineComment → content.head? ≠ some '/')
    (offset : Nat) :
    inner? kind ⟨offset, kind.opening ++ [' '] ++ content ++ kind.closing⟩ =
      some ⟨offset + Text.byteSize (kind.opening ++ [' ']), content⟩ := by
  by_cases isBlock : kind = .blockComment
  · subst isBlock
    have textEq :
        TriviaKind.blockComment.opening ++ [' '] ++ content ++ TriviaKind.blockComment.closing =
          '/' :: '*' :: ' ' :: (content ++ [' ', '*', '/']) := by
      simp [TriviaKind.opening, TriviaKind.closing]
    rw [textEq]
    exact inner?_blockComment isPhrase offset
  · exact (frame_opening_closing kind).inner?_eq (isPhrase.isSolid isBlock notSlash) offset

/-- A phrase makes one lexeme with what is written around it. -/
theorem Lexeme.shape_written
    {kind : TriviaKind}
    {content rest : Text}
    (isPhrase : content.IsPhrase)
    (notSlash : kind = .lineComment → content.head? ≠ some '/')
    (noClose : kind = .blockComment → NoClose content)
    (lineEnds : Text.firstLine rest = []) :
    Shape true rest ⟨.trivia kind, kind.opening ++ [' '] ++ content ++ kind.closing⟩ := by
  by_cases isBlock : kind = .blockComment
  · subst isBlock
    have open' : NoClose ([' '] ++ content ++ [' ', '*']) := by
      apply NoClose.append
      · exact (noClose_of_notMem (by decide)).append (noClose rfl) (Or.inl (by decide))
      · unfold NoClose
        decide
      · exact Or.inr (by decide)
    have textEq :
        TriviaKind.blockComment.opening ++ [' '] ++ content ++ TriviaKind.blockComment.closing =
          '/' :: '*' :: (' ' :: (content ++ [' ']) ++ ['*', '/']) := by
      simp [TriviaKind.opening, TriviaKind.closing]
    rw [textEq]
    exact .blockComment _ (by simpa using open')
  · have solid := isPhrase.isSolid isBlock notSlash
    apply (frame_opening_closing kind).shape solid
    · exact fun _ => rfl
    · intro _
      refine Or.inl ⟨lineEnds, ?_⟩
      have noClosing : kind.closing = [] := by
        cases kind with
        | blockComment => exact absurd rfl isBlock
        | _ => rfl
      rw [noClosing, List.append_nil]
      intro lastEq
      have visible := isPhrase.ends.append (kind.opening ++ [' ']) isPhrase.nonempty '\r' lastEq
      exact absurd visible (by decide)
    · exact fun isBlock' => absurd isBlock' isBlock

private theorem LocationTag.isPhrase_render {tag : LocationTag} (writable : tag.IsWritable) :
    Text.IsPhrase tag.render := by
  obtain ⟨rest, renderEq⟩ := tag.render_eq_cons
  apply Text.IsPhrase.of_blankFree
  · simp [renderEq]
  · exact blankFree_render writable

theorem Lexeme.NoClose.append_spaced
    {front : Text}
    {part : Option Text}
    (frontOpen : NoClose front)
    (parts : ∀ text, part = some text → NoClose text) :
    NoClose (front ++ Text.spaced part) := by
  cases part with
  | none => simpa [Text.spaced] using frontOpen
  | some text =>
      have behind : NoClose ([' '] ++ text) :=
        (noClose_of_notMem (by decide)).append (parts text rfl) (Or.inl (by decide))
      exact frontOpen.append behind (Or.inr (by simp [Text.spaced]))

/-- A phrase is the body that is written with a space before it. -/
theorem bodyOf?_spaced_append
    {body : Option Text}
    {back : Text}
    (form : MarkerForm)
    (bodies : ∀ text, body = some text → text.IsPhrase)
    (backBlank : Text.AllBlank back) :
    bodyOf? form (Text.spaced body ++ back) = body := by
  rw [bodyOf?, Text.trim_spaced_append bodies backBlank]
  cases body with
  | none => rfl
  | some text =>
      have isPhrase := bodies text rfl
      cases text with
      | nil => exact absurd rfl isPhrase.nonempty
      | cons c rest =>
          cases form with
          | blockComment => simp [stripGutters, isPhrase.lines_eq]
          | _ => rfl

/-! ## Sketches -/

/-- What a marker is to be, if it can be written. Only start markers have a body, and no
body ends with a word that is read as a location tag. -/
structure MarkerSketch where
  keyword : MarkerKeyword
  form : MarkerForm
  body : Option Text
  tag : Option LocationTag
  body_of_end : keyword = .macroEnd → body = none
  isPhrase : ∀ text, body = some text → text.IsPhrase
  isWritable : ∀ written, tag = some written → written.IsWritable
  bodyOpen : form = .blockComment → ∀ text, body = some text → Lexeme.NoClose text
  pathOpen : form = .blockComment →
    ∀ written, tag = some written →
      ∀ path, written.filePath = some path → Lexeme.NoClose path
  untagged : tag = none →
    ∀ text, body = some text → LocationTag.parse? (Text.splitLastWord text).2 = none

namespace MarkerSketch

def kind (sketch : MarkerSketch) : TriviaKind :=
  match sketch.form, sketch.keyword with
  | .region, .macroStart => .regionDirective
  | .region, .macroEnd => .endRegionDirective
  | .lineComment, _ => .lineComment
  | .blockComment, _ => .blockComment

/-- The word that tells what the marker is. The end of a region needs none. -/
def word? (sketch : MarkerSketch) : Option Text :=
  match sketch.keyword, sketch.form with
  | .macroStart, _ => some startKeyword
  | .macroEnd, .region => none
  | .macroEnd, _ => some endKeyword

def tagText? (sketch : MarkerSketch) : Option Text :=
  sketch.tag.map LocationTag.render

def rest (sketch : MarkerSketch) : Text :=
  Text.spaced sketch.body ++ Text.spaced sketch.tagText?

def text (sketch : MarkerSketch) : Text :=
  sketch.kind.opening ++ Text.spaced sketch.word? ++ sketch.rest ++ sketch.kind.closing

def tagSpan? (sketch : MarkerSketch) (offset : Nat) : Option Span :=
  sketch.tagText?.map fun tagText =>
    let start :=
      offset +
        Text.byteSize
          (sketch.kind.opening ++ Text.spaced sketch.word? ++ Text.spaced sketch.body ++ [' '])
    ⟨start, start + Text.byteSize tagText⟩

structure IsReadAs (sketch : MarkerSketch) (offset : Nat) (found : Marker) : Prop where
  keyword : found.keyword = sketch.keyword
  form : found.form = sketch.form
  body : found.body = sketch.body
  tag : found.tag = sketch.tag
  tagSpan : found.tagSpan = sketch.tagSpan? offset

variable (sketch : MarkerSketch)

private theorem ofTriviaKind_kind : MarkerForm.ofTriviaKind sketch.kind = sketch.form := by
  unfold kind
  cases sketch.form <;> cases sketch.keyword <;> rfl

private theorem isPhrase_tagText
    {tagText : Text}
    (tagTextEq : sketch.tagText? = some tagText) :
    tagText.IsPhrase := by
  obtain ⟨tag, tagEq, rfl⟩ := Option.map_eq_some_iff.1 tagTextEq
  exact LocationTag.isPhrase_render (sketch.isWritable tag tagEq)

private theorem word?_cases {word : Text} (wordEq : sketch.word? = some word) :
    sketch.keyword = .macroStart ∧ word = startKeyword ∨
      sketch.keyword = .macroEnd ∧ sketch.form ≠ .region ∧ word = endKeyword := by
  unfold word? at wordEq
  split at wordEq
  next keywordEq => exact Or.inl ⟨keywordEq, (Option.some.inj wordEq).symm⟩
  next => simp at wordEq
  next keywordEq notRegion => exact Or.inr ⟨keywordEq, notRegion, (Option.some.inj wordEq).symm⟩

theorem word?_eq_none_iff :
    sketch.word? = none ↔ sketch.keyword = .macroEnd ∧ sketch.form = .region := by
  unfold word?
  cases sketch.keyword <;> cases sketch.form <;> simp

private theorem text_of_word {word : Text} (wordEq : sketch.word? = some word) :
    sketch.text =
      sketch.kind.opening ++ [' '] ++ (word ++ sketch.rest) ++ sketch.kind.closing := by
  simp [text, wordEq, Text.spaced]

private theorem isPhrase_content {word : Text} (wordEq : sketch.word? = some word) :
    Text.IsPhrase (word ++ sketch.rest) := by
  have isWord : Text.IsPhrase word := by
    apply Text.IsPhrase.of_blankFree
    · rcases sketch.word?_cases wordEq with ⟨_, rfl⟩ | ⟨_, _, rfl⟩ <;> decide
    · apply Text.blankFree_of_all
      rcases sketch.word?_cases wordEq with ⟨_, rfl⟩ | ⟨_, _, rfl⟩ <;> decide
  rw [rest, ← List.append_assoc]
  apply (isWord.append_spaced sketch.isPhrase).append_spaced
  exact fun _ tagTextEq => sketch.isPhrase_tagText tagTextEq

private theorem notSlash_content {word : Text} (wordEq : sketch.word? = some word) :
    (word ++ sketch.rest).head? ≠ some '/' := by
  rcases sketch.word?_cases wordEq with ⟨_, rfl⟩ | ⟨_, _, rfl⟩ <;>
    simp [startKeyword, endKeyword]

private theorem noClose_content
    {word : Text}
    (wordEq : sketch.word? = some word)
    (isBlock : sketch.form = .blockComment) :
    Lexeme.NoClose (word ++ sketch.rest) := by
  have wordOpen : Lexeme.NoClose word := by
    apply noClose_of_notMem
    rcases sketch.word?_cases wordEq with ⟨_, rfl⟩ | ⟨_, _, rfl⟩ <;> decide
  rw [rest, ← List.append_assoc]
  apply (wordOpen.append_spaced (sketch.bodyOpen isBlock)).append_spaced
  intro tagText tagTextEq
  obtain ⟨tag, tagEq, rfl⟩ := Option.map_eq_some_iff.1 tagTextEq
  exact noClose_render (sketch.pathOpen isBlock tag tagEq)

theorem newline_notMem_text : '\n' ∉ sketch.text := by
  have openingLine : '\n' ∉ sketch.kind.opening := by
    cases sketch.kind <;> decide
  have closingLine : '\n' ∉ sketch.kind.closing := by
    cases sketch.kind <;> decide
  have wordLine : '\n' ∉ Text.spaced sketch.word? := by
    cases wordEq : sketch.word? with
    | none => simp [Text.spaced]
    | some word =>
        rcases sketch.word?_cases wordEq with ⟨_, rfl⟩ | ⟨_, _, rfl⟩ <;> decide
  have bodyLine := Text.newline_notMem_spaced sketch.isPhrase
  have tagLine : '\n' ∉ Text.spaced sketch.tagText? :=
    Text.newline_notMem_spaced fun _ tagTextEq => sketch.isPhrase_tagText tagTextEq
  simp [text, rest, openingLine, closingLine, wordLine, bodyLine, tagLine]

private theorem kind_of_endRegion (wordEq : sketch.word? = none) :
    sketch.kind = .endRegionDirective := by
  obtain ⟨keywordEq, formEq⟩ := sketch.word?_eq_none_iff.1 wordEq
  rw [kind, keywordEq, formEq]

private theorem rest_of_endRegion (wordEq : sketch.word? = none) :
    sketch.rest = Text.spaced sketch.tagText? := by
  have noBody := sketch.body_of_end (sketch.word?_eq_none_iff.1 wordEq).1
  rw [rest, noBody]
  rfl

private theorem text_of_endRegion
    {tagText : Text}
    (wordEq : sketch.word? = none)
    (tagTextEq : sketch.tagText? = some tagText) :
    sketch.text =
      sketch.kind.opening ++ [' '] ++ tagText ++ sketch.kind.closing := by
  simp [text, wordEq, sketch.rest_of_endRegion wordEq, tagTextEq, Text.spaced]

private theorem text_of_bareEndRegion
    (wordEq : sketch.word? = none)
    (tagTextEq : sketch.tagText? = none) :
    sketch.text = '#' :: Directive.closing.keyword := by
  simp [text, wordEq, sketch.rest_of_endRegion wordEq, tagTextEq, Text.spaced,
    sketch.kind_of_endRegion wordEq, TriviaKind.opening, TriviaKind.closing]

/-- A written marker is one lexeme when the line ends behind it. -/
theorem shape {rest : Text} (lineEnds : Text.firstLine rest = []) :
    Lexeme.Shape true rest ⟨.trivia sketch.kind, sketch.text⟩ := by
  cases wordEq : sketch.word? with
  | some word =>
      rw [sketch.text_of_word wordEq]
      apply Lexeme.shape_written (sketch.isPhrase_content wordEq)
      · exact fun _ => sketch.notSlash_content wordEq
      · intro isBlock
        apply sketch.noClose_content wordEq
        rw [← sketch.ofTriviaKind_kind, isBlock]
        rfl
      · exact lineEnds
  | none =>
      have kindEq := sketch.kind_of_endRegion wordEq
      cases tagTextEq : sketch.tagText? with
      | some tagText =>
          rw [sketch.text_of_endRegion wordEq tagTextEq]
          apply Lexeme.shape_written (sketch.isPhrase_tagText tagTextEq)
          · simp [kindEq]
          · simp [kindEq]
          · exact lineEnds
      | none =>
          rw [sketch.text_of_bareEndRegion wordEq tagTextEq, kindEq]
          apply Lexeme.Shape.directive .closing [] Directive.closing.keyword rfl (by decide)
          rw [← List.cons_append]
          exact
            Text.withoutReturn_firstLine_append_iff.2
              ⟨by decide, Or.inl ⟨lineEnds, by decide⟩⟩

private theorem ofPiece_rest (offset : Nat) :
    ∃ remainder malformed,
      Payload.ofPiece ⟨offset, sketch.rest⟩ =
          ⟨sketch.tag,
            sketch.tagText?.map fun tagText =>
              let start := offset + Text.byteSize (Text.spaced sketch.body ++ [' '])
              ⟨start, start + Text.byteSize tagText⟩,
            remainder, malformed⟩ ∧
        ∀ form, bodyOf? form remainder = sketch.body := by
  cases tagEq : sketch.tag with
  | some tag =>
      have writable := sketch.isWritable tag tagEq
      have restEq : sketch.rest = (Text.spaced sketch.body ++ [' ']) ++ tag.render := by
        simp [rest, tagText?, tagEq, Text.spaced]
      have lastBlank : ∀ c, (Text.spaced sketch.body ++ [' ']).getLast? = some c →
          isBlank c = true := by
        intro c lastEq
        obtain rfl : ' ' = c := by simpa using lastEq
        decide
      refine ⟨Text.spaced sketch.body ++ [' '], false, ?_, ?_⟩
      · rw [restEq,
          Payload.ofPiece_append (LocationTag.blankFree_render writable) lastBlank
            (LocationTag.parse?_render writable)]
        simp [tagText?, tagEq]
      · exact fun form => bodyOf?_spaced_append form sketch.isPhrase Text.allBlank_space
  | none =>
      have restEq : sketch.rest = Text.spaced sketch.body := by
        simp [rest, tagText?, tagEq, Text.spaced]
      have noTag :
          LocationTag.parse? (Text.splitLastWord (Text.spaced sketch.body)).2 = none := by
        rw [Text.splitLastWord_spaced]
        cases bodyEq : sketch.body with
        | none => rfl
        | some text => exact sketch.untagged tagEq text bodyEq
      have payloadEq :=
        Payload.ofPiece_eq_untagged (Text.endsVisible_spaced sketch.isPhrase) noTag offset
      refine
        ⟨Text.spaced sketch.body, (Text.splitLastWord (Text.spaced sketch.body)).2.head? = some '#',
          ?_, ?_⟩
      · rw [restEq, payloadEq]
        simp [tagText?, tagEq]
      · intro form
        have noBlank : Text.AllBlank [] := by simp [Text.AllBlank]
        have found := bodyOf?_spaced_append form sketch.isPhrase noBlank
        rwa [List.append_nil] at found

private theorem endsWord_rest : Text.endsWord sketch.rest = true :=
  Text.endsWord_spaced_append sketch.body sketch.tagText?

private theorem isEndSuffix_rest (isEnd : sketch.keyword = .macroEnd) :
    isEndSuffix sketch.rest = true := by
  rw [rest, sketch.body_of_end isEnd, tagText?]
  cases tagEq : sketch.tag with
  | none => rfl
  | some tag => exact isEndSuffix_append_render Text.allBlank_space (sketch.isWritable tag tagEq)

def candidateKind : CandidateKind :=
  match sketch.form, sketch.keyword with
  | .region, .macroStart => .regionStart
  | .region, .macroEnd => .regionEnd
  | _, .macroStart => .commentStart
  | _, .macroEnd => .commentEnd

private theorem keyword?_candidateKind :
    sketch.candidateKind.keyword? = some (sketch.keyword, sketch.word?.getD []) := by
  unfold candidateKind word?
  cases sketch.form <;> cases sketch.keyword <;> rfl

private theorem kindOf?_of_comment (isComment : sketch.form ≠ .region) (content : Text) :
    Candidate.kindOf? sketch.kind content = commentKind? content := by
  unfold kind
  cases formEq : sketch.form with
  | region => exact absurd formEq isComment
  | _ => rfl

private theorem candidateKind_of_comment (isComment : sketch.form ≠ .region) :
    sketch.candidateKind =
      match sketch.keyword with
      | .macroStart => .commentStart
      | .macroEnd => .commentEnd := by
  unfold candidateKind
  cases formEq : sketch.form with
  | region => exact absurd formEq isComment
  | _ => cases sketch.keyword <;> rfl

private theorem kindOf?_content {word : Text} (wordEq : sketch.word? = some word) :
    Candidate.kindOf? sketch.kind (word ++ sketch.rest) = some sketch.candidateKind := by
  have ended := sketch.endsWord_rest
  rcases sketch.word?_cases wordEq with ⟨keywordEq, rfl⟩ | ⟨keywordEq, isComment, rfl⟩
  · by_cases isRegion : sketch.form = .region
    · simp only [kind, candidateKind, isRegion, keywordEq, Candidate.kindOf?, directiveKind,
        beginsWithKeywordInAnyCase_append, ended, if_true]
    · rw [sketch.kindOf?_of_comment isRegion, sketch.candidateKind_of_comment isRegion, keywordEq]
      exact commentKind?_startKeyword_append ended
  · rw [sketch.kindOf?_of_comment isComment, sketch.candidateKind_of_comment isComment,
      keywordEq]
    exact commentKind?_endKeyword_append ended (sketch.isEndSuffix_rest keywordEq)

private theorem isReadAs_ofContent
    {word remainder : Text}
    {position : Position}
    {content : Piece}
    {offset : Nat}
    {malformed : Bool}
    (payloadEq :
      Payload.ofPiece ⟨content.offset + Text.byteSize word, content.text.drop word.length⟩ =
        ⟨sketch.tag, sketch.tagSpan? offset, remainder, malformed⟩)
    (bodyEq : sketch.keyword = .macroStart → bodyOf? sketch.form remainder = sketch.body) :
    sketch.IsReadAs offset
      (Marker.ofContent sketch.keyword word sketch.kind position content) := by
  refine ⟨rfl, sketch.ofTriviaKind_kind, ?_, ?_, ?_⟩
  · simp only [Marker.ofContent, payloadEq, sketch.ofTriviaKind_kind]
    cases keywordEq : sketch.keyword with
    | macroStart => exact bodyEq keywordEq
    | macroEnd => exact (sketch.body_of_end keywordEq).symm
  · simp only [Marker.ofContent, payloadEq]
  · simp only [Marker.ofContent, payloadEq]

private theorem exists_marker_of_word
    {word : Text}
    (wordEq : sketch.word? = some word)
    (offset : Nat)
    (position : Position) :
    ∃ found,
      PairingItem.ofPiece? sketch.kind position ⟨offset, sketch.text⟩ = some (.marker found) ∧
        sketch.IsReadAs offset found := by
  have notSlash : sketch.kind = .lineComment → (word ++ sketch.rest).head? ≠ some '/' :=
    fun _ => sketch.notSlash_content wordEq
  have innerEq := Candidate.inner?_written (sketch.isPhrase_content wordEq) notSlash offset
  have keywordEq := sketch.keyword?_candidateKind
  rw [wordEq, Option.getD_some] at keywordEq
  rw [← sketch.text_of_word wordEq] at innerEq
  refine
    ⟨_,
      PairingItem.ofPiece?_eq_marker_iff.2
        ⟨_, sketch.candidateKind, sketch.keyword, word, innerEq, sketch.kindOf?_content wordEq,
          keywordEq, rfl⟩,
      ?_⟩
  obtain ⟨remainder, malformed, payloadEq, bodyEq⟩ :=
    sketch.ofPiece_rest
      (offset + Text.byteSize (sketch.kind.opening ++ [' ']) + Text.byteSize word)
  apply @isReadAs_ofContent sketch word remainder position _ offset malformed
  · rw [List.drop_left, payloadEq, tagSpan?, wordEq]
    simp [Text.spaced, Nat.add_assoc]
  · exact fun _ => bodyEq sketch.form

private theorem ofPiece?_of_endRegion
    {offset : Nat}
    {content : Piece}
    (wordEq : sketch.word? = none)
    (innerEq : Candidate.inner? sketch.kind ⟨offset, sketch.text⟩ = some content)
    (position : Position) :
    PairingItem.ofPiece? sketch.kind position ⟨offset, sketch.text⟩ =
      some (.marker (Marker.ofContent sketch.keyword [] sketch.kind position content)) := by
  have kindEq := sketch.kind_of_endRegion wordEq
  have keywordEq := sketch.keyword?_candidateKind
  rw [wordEq, Option.getD_none] at keywordEq
  have isRegionEnd :
      Candidate.kindOf? sketch.kind content.text = some sketch.candidateKind := by
    obtain ⟨isEnd, isRegion⟩ := sketch.word?_eq_none_iff.1 wordEq
    rw [kindEq, candidateKind, isEnd, isRegion]
    rfl
  exact
    PairingItem.ofPiece?_eq_marker_iff.2
      ⟨content, sketch.candidateKind, sketch.keyword, [], innerEq, isRegionEnd, keywordEq, rfl⟩

private theorem exists_marker_of_endRegion
    (wordEq : sketch.word? = none)
    (offset : Nat)
    (position : Position) :
    ∃ found,
      PairingItem.ofPiece? sketch.kind position ⟨offset, sketch.text⟩ = some (.marker found) ∧
        sketch.IsReadAs offset found := by
  have kindEq := sketch.kind_of_endRegion wordEq
  have isEnd := (sketch.word?_eq_none_iff.1 wordEq).1
  cases tagEq : sketch.tag with
  | some tag =>
      have tagTextEq : sketch.tagText? = some tag.render := by simp [tagText?, tagEq]
      have writable := sketch.isWritable tag tagEq
      have notSlash : sketch.kind = .lineComment → tag.render.head? ≠ some '/' := by
        simp [kindEq]
      have innerEq :=
        Candidate.inner?_written (sketch.isPhrase_tagText tagTextEq) notSlash offset
      rw [← sketch.text_of_endRegion wordEq tagTextEq] at innerEq
      refine ⟨_, sketch.ofPiece?_of_endRegion wordEq innerEq position, ?_⟩
      have lastBlank : ∀ c, ([] : Text).getLast? = some c → isBlank c = true := by simp
      have payloadEq :=
        Payload.ofPiece_append (LocationTag.blankFree_render writable) lastBlank
          (LocationTag.parse?_render writable)
          (offset + Text.byteSize (sketch.kind.opening ++ [' ']))
      rw [List.nil_append] at payloadEq
      apply sketch.isReadAs_ofContent
      · rw [tagSpan?, tagTextEq, wordEq, sketch.body_of_end isEnd, tagEq]
        simpa [Text.spaced] using payloadEq
      · simp [isEnd]
  | none =>
      have tagTextEq : sketch.tagText? = none := by simp [tagText?, tagEq]
      have innerEq :
          Candidate.inner? .endRegionDirective ⟨offset, '#' :: Directive.closing.keyword⟩ =
            some ⟨offset + 10, []⟩ :=
        rfl
      rw [← sketch.text_of_bareEndRegion wordEq tagTextEq, ← kindEq] at innerEq
      refine ⟨_, sketch.ofPiece?_of_endRegion wordEq innerEq position, ?_⟩
      apply sketch.isReadAs_ofContent
      · rw [tagSpan?, tagTextEq, tagEq]
        rfl
      · simp [isEnd]

/-- A written marker is read as the marker that the sketch is of. -/
theorem exists_marker (offset : Nat) (position : Position) :
    ∃ found,
      PairingItem.ofPiece? sketch.kind position ⟨offset, sketch.text⟩ = some (.marker found) ∧
        sketch.IsReadAs offset found := by
  cases wordEq : sketch.word? with
  | some word => exact sketch.exists_marker_of_word wordEq offset position
  | none => exact sketch.exists_marker_of_endRegion wordEq offset position

end MarkerSketch

end MacroRegions

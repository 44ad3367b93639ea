import MacroRegions.Document.Nesting
import MacroRegions.Proofs.Marker.Retagging
import MacroRegions.Update.Edit

/-!
Comments and directives with other location tags.

A marker is written in a comment or a directive, and another location tag for it is a
change of that text in one place. The text that comes out is a lexeme again where the
old one was, and it is what the edit between the two markers makes.
-/

namespace MacroRegions

def MarkerKeyword.bodyOf?
    (keyword : MarkerKeyword)
    (form : MarkerForm)
    (remainder : Text) :
    Option Text :=
  match keyword with
  | .macroStart => MacroRegions.bodyOf? form remainder
  | .macroEnd => none

def Marker.ofContent
    (keyword : MarkerKeyword)
    (word : Text)
    (kind : TriviaKind)
    (position : Position)
    (content : Piece) :
    Marker :=
  let payload :=
    Payload.ofPiece
      ⟨content.offset + Text.byteSize word, content.text.drop word.length⟩
  { keyword := keyword
    form := MarkerForm.ofTriviaKind kind
    tag := payload.tag
    body := keyword.bodyOf? (MarkerForm.ofTriviaKind kind) payload.remainder
    position := position
    tagSpan := payload.tagSpan
    insertOffset := content.span.stop
    malformedTag := payload.malformedTag }

namespace PairingItem

def ofPiece? (kind : TriviaKind) (position : Position) (whole : Piece) : Option PairingItem :=
  (Candidate.contentOf? kind whole).bind fun (found, content) =>
    ofCandidate? ⟨found, kind, position, content⟩

theorem ofPiece?_eq_marker_iff
    {kind : TriviaKind}
    {position : Position}
    {whole : Piece}
    {found : Marker} :
    ofPiece? kind position whole = some (.marker found) ↔
      ∃ content candidateKind keyword word,
        Candidate.inner? kind whole = some content ∧
          Candidate.kindOf? kind content.text = some candidateKind ∧
          candidateKind.keyword? = some (keyword, word) ∧
          Marker.ofContent keyword word kind position content = found := by
  rw [ofPiece?, Candidate.contentOf?_eq_bind]
  constructor
  · intro isMarker
    obtain ⟨⟨candidateKind, content⟩, contentEq, classified⟩ :=
      Option.bind_eq_some_iff.1 isMarker
    obtain ⟨content', innerEq, mapped⟩ := Option.bind_eq_some_iff.1 contentEq
    obtain ⟨candidateKind', kindEq, pairEq⟩ := Option.map_eq_some_iff.1 mapped
    obtain ⟨rfl, rfl⟩ := Prod.mk.inj pairEq
    cases keywordEq : candidateKind'.keyword? with
    | none => simp [ofCandidate?, Candidate.classify?, keywordEq] at classified
    | some pair =>
        obtain ⟨keyword, word⟩ := pair
        refine ⟨content', candidateKind', keyword, word, innerEq, kindEq, keywordEq, ?_⟩
        have notPlain : candidateKind' ≠ .plainRegionStart := by
          rintro rfl
          simp [CandidateKind.keyword?] at keywordEq
        simp only [ofCandidate?, if_neg notPlain, Candidate.classify?, keywordEq,
          Option.bind_eq_bind, Option.bind_some, Option.map_some, Option.some.injEq,
          marker.injEq] at classified
        exact classified
  · rintro ⟨content, candidateKind, keyword, word, innerEq, kindEq, keywordEq, rfl⟩
    have notPlain : candidateKind ≠ .plainRegionStart := by
      rintro rfl
      simp [CandidateKind.keyword?] at keywordEq
    rw [innerEq, Option.bind_some, kindEq, Option.map_some, Option.bind_some]
    simp only [ofCandidate?, if_neg notPlain, Candidate.classify?, keywordEq,
      Option.bind_eq_bind, Option.bind_some, Option.map_some]
    rfl

end PairingItem

/-- The marker `found` is the marker `before` in another place and with another
location tag. -/
structure Marker.IsRetagged (before found : Marker) (tag : Option LocationTag) : Prop where
  keyword : found.keyword = before.keyword
  form : found.form = before.form
  body : found.body = before.body
  tag : found.tag = tag

/-- The text of a comment or a directive at an offset with another location tag written
for its marker. It is changed in one place, as the edit between the markers says, and
read as the marker with the tag. -/
structure Marker.Rewrites
    (marker : Marker)
    (tag : LocationTag)
    (kind : TriviaKind)
    (offset : Nat)
    (text text' : Text) : Prop where
  edit : ∃ before old new after,
    text = before ++ old ++ after ∧
      text' = before ++ new ++ after ∧
      before ≠ [] ∧
      '\n' ∉ old ∧
      '\n' ∉ new ∧
      (new = tag.render ∨ new = ' ' :: tag.render) ∧
      (marker.tag ≠ some tag →
        marker.edit? (marker.withTag (some tag)) =
          some
            ⟨⟨offset + Text.byteSize before,
              offset + Text.byteSize before + Text.byteSize old⟩, new⟩)
  reads : ∀ offset' position', ∃ found,
    PairingItem.ofPiece? kind position' ⟨offset', text'⟩ = some (.marker found) ∧
      found.position = position' ∧ marker.IsRetagged found (some tag)
  shape : ∀ lineBlank rest rest',
    Lexeme.Shape lineBlank rest ⟨.trivia kind, text⟩ →
      (Text.firstLine rest = [] ∨ Text.firstLine rest = ['\r'] →
        Text.firstLine rest' = Text.firstLine rest) →
      (kind = .blockComment → ∀ path, tag.filePath = some path → Lexeme.NoClose path) →
        Lexeme.Shape lineBlank rest' ⟨.trivia kind, text'⟩

theorem Lexeme.Shape.newline_notMem
    {kind : TriviaKind}
    {text rest : Text}
    {lineBlank : Bool}
    (shape : Lexeme.Shape lineBlank rest ⟨.trivia kind, text⟩)
    (notBlock : kind ≠ .blockComment) :
    '\n' ∉ text := by
  cases shape with
  | lineComment tail ends => exact (Text.withoutReturn_firstLine_append_iff.1 ends).1
  | blockComment => exact absurd rfl notBlock
  | directive directive after tail blank reads ends =>
      exact (Text.withoutReturn_firstLine_append_iff.1 ends).1

private theorem Lexeme.Shape.line_ends
    {kind : TriviaKind}
    {text rest : Text}
    {lineBlank : Bool}
    (shape : Lexeme.Shape lineBlank rest ⟨.trivia kind, text⟩)
    (notBlock : kind ≠ .blockComment) :
    Text.firstLine rest = [] ∧ text.getLast? ≠ some '\r' ∨ Text.firstLine rest = ['\r'] := by
  cases shape with
  | lineComment tail ends => exact (Text.withoutReturn_firstLine_append_iff.1 ends).2
  | blockComment => exact absurd rfl notBlock
  | directive directive after tail blank reads ends =>
      exact (Text.withoutReturn_firstLine_append_iff.1 ends).2

private theorem Lexeme.Shape.lineBlank_of_directive
    {kind : TriviaKind}
    {text rest : Text}
    {lineBlank : Bool}
    (shape : Lexeme.Shape lineBlank rest ⟨.trivia kind, text⟩)
    (isDirective : kind = .regionDirective ∨ kind = .endRegionDirective) :
    lineBlank = true := by
  cases shape with
  | lineComment => simp at isDirective
  | blockComment => simp at isDirective
  | directive directive after tail blank reads ends => exact blank

/-- A block comment does not close before its end. -/
theorem Lexeme.Shape.noClose
    {text rest inner : Text}
    {lineBlank : Bool}
    (shape : Lexeme.Shape lineBlank rest ⟨.trivia .blockComment, text⟩)
    (textEq : text = '/' :: '*' :: (inner ++ ['*', '/'])) :
    Lexeme.NoClose (inner ++ ['*']) := by
  generalize kindEq : TriviaKind.blockComment = kind at shape
  cases shape with
  | lineComment => simp at kindEq
  | directive directive => cases directive <;> simp [Directive.triviaKind] at kindEq
  | blockComment front noClose =>
      obtain rfl : front = inner := by simpa using textEq
      exact noClose

private theorem isSolid_written
    {kind : TriviaKind}
    {lead base : Text}
    {tag : LocationTag}
    (writable : tag.IsWritable)
    (starts : Text.StartsVisible (lead ++ base))
    (oneLine : kind ≠ .blockComment → '\n' ∉ lead ++ base)
    (letter : kind = .lineComment ∨ kind = .blockComment →
      lead.head? = some 'M' ∨ lead.head? = some 'E') :
    IsSolid kind (lead ++ (base ++ tag.render)) := by
  have renderFree := LocationTag.blankFree_render writable
  obtain ⟨renderRest, renderEq⟩ := tag.render_eq_cons
  have renderSome : tag.render ≠ [] := by simp [renderEq]
  have headOf : kind = .lineComment ∨ kind = .blockComment →
      (lead ++ (base ++ tag.render)).head? = some 'M' ∨
        (lead ++ (base ++ tag.render)).head? = some 'E' := by
    intro isComment
    rw [List.head?_append]
    rcases letter isComment with headEq | headEq
    · exact Or.inl (by rw [headEq, Option.some_or])
    · exact Or.inr (by rw [headEq, Option.some_or])
  refine ⟨by simp [renderSome], ?_, ?_, ?_, ?_, ?_, ?_⟩
  · rw [← List.append_assoc]
    by_cases none : lead ++ base = []
    · rw [none, List.nil_append]
      exact renderFree.startsVisible
    · exact starts.append _ none
  · rw [← List.append_assoc]
    exact renderFree.endsVisible.append _ renderSome
  · intro notBlock
    rw [← List.append_assoc, List.mem_append, not_or]
    exact ⟨oneLine notBlock, renderFree.newline_notMem⟩
  · rintro rfl headEq
    rcases headOf (Or.inl rfl) with letterEq | letterEq <;> simp [letterEq] at headEq
  · rintro rfl headEq
    rcases headOf (Or.inr rfl) with letterEq | letterEq <;> simp [letterEq] at headEq
  · rintro rfl lastEq
    rw [← List.append_assoc] at lastEq
    exact absurd (LocationTag.isDigit_of_getLast?_render lastEq) (by decide)

theorem noClose_of_notMem {text : Text} (noStar : '*' ∉ text) : Lexeme.NoClose text :=
  fun close => noStar (close.subset (by simp))

theorem noClose_render
    {tag : LocationTag}
    (pathOpen : ∀ path, tag.filePath = some path → Lexeme.NoClose path) :
    Lexeme.NoClose tag.render := by
  have digitsOpen : Lexeme.NoClose ('#' :: Text.numeral tag.line) := by
    refine noClose_of_notMem ?_
    intro member
    rcases List.mem_cons.1 member with isHash | inDigits
    · exact absurd isHash (by decide)
    · exact absurd (Text.isDigit_of_mem_numeral inDigits) (by decide)
  unfold LocationTag.render
  split
  · exact digitsOpen
  · next path pathEq =>
      have opened : Lexeme.NoClose (['#'] ++ path) :=
        (noClose_of_notMem (by decide)).append (pathOpen path pathEq) (Or.inl (by decide))
      exact opened.append digitsOpen (Or.inr (by simp))

/-- A block comment stays open as long as before when a tag that does not close
it is written into it. -/
theorem noClose_written
    {before old after gap : Text}
    {tag : LocationTag}
    (noClose : Lexeme.NoClose (before ++ old ++ after ++ ['*']))
    (gapEq : gap = [] ∨ gap = [' '])
    (pathOpen : ∀ path, tag.filePath = some path → Lexeme.NoClose path) :
    Lexeme.NoClose (before ++ (gap ++ tag.render) ++ after ++ ['*']) := by
  obtain ⟨renderRest, renderEq⟩ := tag.render_eq_cons
  have beforeOpen : Lexeme.NoClose before :=
    noClose.of_isInfix ⟨[], old ++ after ++ ['*'], by simp⟩
  have afterOpen : Lexeme.NoClose (after ++ ['*']) :=
    noClose.of_isInfix ⟨before ++ old, [], by simp⟩
  have newOpen : Lexeme.NoClose (gap ++ tag.render) := by
    rcases gapEq with rfl | rfl
    · exact noClose_render pathOpen
    · exact
        (noClose_of_notMem (by decide)).append (noClose_render pathOpen) (Or.inl (by decide))
  have newHead : (gap ++ tag.render).head? ≠ some '/' := by
    rcases gapEq with rfl | rfl
    · simp [renderEq]
    · simp
  have frontOpen : Lexeme.NoClose (before ++ (gap ++ tag.render)) :=
    beforeOpen.append newOpen (Or.inr newHead)
  have wholeOpen : Lexeme.NoClose (before ++ (gap ++ tag.render) ++ (after ++ ['*'])) := by
    refine frontOpen.append afterOpen (Or.inl ?_)
    rw [← List.append_assoc]
    intro lastEq
    exact absurd (LocationTag.isDigit_of_getLast?_render lastEq) (by decide)
  simpa using wholeOpen

/-! ## Written markers -/

/-- The text `front ++ lead ++ base ++ tag ++ back` is `lead`, `base` and a tag
in a frame. -/
structure WrittenIn
    (kind : TriviaKind)
    (front lead base back : Text)
    (tag : LocationTag) : Prop where
  frame : Frame kind front back
  solid : IsSolid kind (lead ++ (base ++ tag.render))
  blankBefore : ∀ c, base.getLast? = some c → isBlank c = true

private theorem ofPiece?_written
    {kind : TriviaKind}
    {front lead base back word : Text}
    {tag : LocationTag}
    {candidateKind : CandidateKind}
    {keyword : MarkerKeyword}
    (written : WrittenIn kind front lead base back tag)
    (writable : tag.IsWritable)
    (leads : candidateKind.Leads kind word lead)
    (keywordEq : candidateKind.keyword? = some (keyword, word))
    (admits : candidateKind.Admits (base ++ tag.render))
    (offset : Nat)
    (position : Position) :
    ∃ found,
      PairingItem.ofPiece? kind position
          ⟨offset, front ++ (lead ++ (base ++ tag.render)) ++ back⟩ =
        some (.marker found) ∧
      found.position = position ∧
      found.keyword = keyword ∧
      found.form = MarkerForm.ofTriviaKind kind ∧
      found.tag = some tag ∧
      found.body = keyword.bodyOf? (MarkerForm.ofTriviaKind kind) base := by
  have isMarker :
      PairingItem.ofPiece? kind position
          ⟨offset, front ++ (lead ++ (base ++ tag.render)) ++ back⟩ =
        some
          (.marker
            (Marker.ofContent keyword word kind position
              ⟨offset + Text.byteSize front, lead ++ (base ++ tag.render)⟩)) :=
    PairingItem.ofPiece?_eq_marker_iff.2
      ⟨_, candidateKind, keyword, word, written.frame.inner?_eq written.solid offset,
        leads.kindOf?_eq _ admits, keywordEq, rfl⟩
  refine ⟨_, isMarker, rfl, rfl, rfl, ?_⟩
  have payload :=
    Payload.ofPiece_append (LocationTag.blankFree_render writable) written.blankBefore
      (LocationTag.parse?_render writable)
      (offset + Text.byteSize front + Text.byteSize word)
  simp only [Marker.ofContent, List.drop_left' leads.length_eq, payload]
  trivial

/-- The tag of a marker goes into the slot behind its keyword. -/
theorem edit?_ofContent
    {kind : TriviaKind}
    {position : Position}
    {keyword : MarkerKeyword}
    {word lead rest body old gap : Text}
    {offset : Nat}
    {tag : LocationTag}
    (lengthEq : lead.length = word.length)
    (byteSizeEq : Text.byteSize lead = Text.byteSize word)
    (slot : TagSlot rest body old gap)
    (different :
      (Marker.ofContent keyword word kind position ⟨offset, lead ++ rest⟩).tag ≠ some tag) :
    let marker := Marker.ofContent keyword word kind position ⟨offset, lead ++ rest⟩
    marker.edit? (marker.withTag (some tag)) =
      some
        ⟨⟨offset + Text.byteSize (lead ++ body),
          offset + Text.byteSize (lead ++ body) + Text.byteSize old⟩, gap ++ tag.render⟩ := by
  intro marker
  have payloadEq :
      marker.tagSpan =
        (Payload.ofPiece ⟨offset + Text.byteSize word, rest⟩).tagSpan := by
    simp only [marker, Marker.ofContent, List.drop_left' lengthEq]
  have insertEq : marker.insertOffset = offset + Text.byteSize (lead ++ rest) := rfl
  have differs : marker.tag ≠ (marker.withTag (some tag)).tag := different
  rw [Marker.edit?, if_neg differs, payloadEq]
  cases slot with
  | tagged _ _ found wordFree bodyBlank reads =>
      rw [Payload.ofPiece_append wordFree bodyBlank reads]
      simp only [Marker.withTag, Text.byteSize_append, byteSizeEq, List.nil_append,
        Option.some.injEq, TextEdit.mk.injEq, Span.mk.injEq, and_true]
      omega
  | untagged _ ends noTag =>
      rw [Payload.ofPiece_eq_untagged ends noTag]
      simp [Marker.withTag, insertEq]

/-- A content with a tag written into its slot stands in a frame. -/
theorem exists_writtenIn
    {kind : TriviaKind}
    {front back word lead rest body old gap : Text}
    {tag : LocationTag}
    {candidateKind : CandidateKind}
    (frame : lead ++ rest ≠ [] → Frame kind front back)
    (emptyFrame : lead ++ rest = [] → Frame kind (front ++ [' ']) back)
    (starts : Text.StartsVisible (lead ++ rest))
    (oneLine : kind ≠ .blockComment → '\n' ∉ lead ++ rest)
    (leads : candidateKind.Leads kind word lead)
    (slot : TagSlot rest body old gap)
    (writable : tag.IsWritable)
    (admits : candidateKind.Admits rest) :
    ∃ front' base,
      front ++ lead ++ body ++ (gap ++ tag.render) ++ back =
          front' ++ (lead ++ (base ++ tag.render)) ++ back ∧
        WrittenIn kind front' lead base back tag ∧
        candidateKind.Admits (base ++ tag.render) ∧
        (candidateKind ≠ .regionEnd → base = body ++ gap) := by
  have restEq := slot.rest_eq
  by_cases none : lead ++ rest = []
  · obtain ⟨leadNil, restNil⟩ := List.append_eq_nil_iff.1 none
    subst leadNil
    obtain ⟨rfl, rfl⟩ : body = [] ∧ old = [] := by
      rw [restNil] at restEq
      exact List.append_eq_nil_iff.1 restEq.symm
    have isRegionEnd : candidateKind = .regionEnd :=
      Classical.byContradiction fun other => leads.nonempty other rfl
    subst isRegionEnd
    obtain rfl : gap = [' '] := by
      cases slot with
      | tagged _ _ found wordFree bodyBlank reads => simp [LocationTag.parse?] at reads
      | untagged => rfl
    refine ⟨front ++ [' '], [], by simp, ⟨emptyFrame none, ?_, by simp⟩, trivial, by simp⟩
    exact isSolid_written writable (by simp [Text.StartsVisible]) (by simp) leads.letter
  · refine
      ⟨front, body ++ gap, by simp, ⟨frame none, ?_, slot.blank_before⟩,
        slot.admits_written writable admits, fun _ => rfl⟩
    refine isSolid_written writable ?_ ?_ leads.letter
    · cases slot with
      | tagged _ _ found wordFree bodyBlank reads =>
          rw [List.append_nil]
          rw [← List.append_assoc] at starts
          exact Text.StartsVisible.of_append starts
      | untagged =>
          rw [← List.append_assoc]
          exact starts.append _ none
    · intro notBlock
      have contentLine := oneLine notBlock
      rw [restEq] at contentLine
      simp only [List.mem_append, not_or] at contentLine ⊢
      refine ⟨contentLine.1, contentLine.2.1, ?_⟩
      cases slot <;> simp

private theorem TagSlot.gap_cases
    {rest body old gap : Text}
    (slot : TagSlot rest body old gap) :
    gap = [] ∨ gap = [' '] := by
  cases slot with
  | tagged => exact Or.inl rfl
  | untagged => exact Or.inr rfl

private theorem firstLine_rest_cases
    {rest rest' text text' : Text}
    (ends :
      Text.firstLine rest = [] ∧ text.getLast? ≠ some '\r' ∨ Text.firstLine rest = ['\r'])
    (same :
      Text.firstLine rest = [] ∨ Text.firstLine rest = ['\r'] →
        Text.firstLine rest' = Text.firstLine rest)
    (lastSame : text'.getLast? = some '\r' → text.getLast? = some '\r') :
    Text.firstLine rest' = [] ∧ text'.getLast? ≠ some '\r' ∨ Text.firstLine rest' = ['\r'] := by
  rcases ends with ⟨none, noReturn⟩ | return'
  · left
    rw [same (Or.inl none), none]
    exact ⟨rfl, fun lastEq => noReturn (lastSame lastEq)⟩
  · right
    rw [same (Or.inr return'), return']

private theorem getLast?_return_of_written
    {before old gap back : Text}
    {tag : LocationTag}
    (lastEq : (before ++ (gap ++ tag.render) ++ back).getLast? = some '\r') :
    (before ++ old ++ back).getLast? = some '\r' := by
  cases List.eq_nil_or_concat back with
  | inl none =>
      rw [none, List.append_nil, ← List.append_assoc] at lastEq
      exact absurd (LocationTag.isDigit_of_getLast?_render lastEq) (by decide)
  | inr concat =>
      obtain ⟨inner, c, rfl⟩ := concat
      simpa using lastEq

theorem front_ne_nil
    {kind : TriviaKind}
    {front content back : Text}
    (frame : content ≠ [] → Frame kind front back)
    (emptyFrame : content = [] → Frame kind (front ++ [' ']) back) :
    front ≠ [] := by
  rintro rfl
  by_cases none : content = []
  · obtain ⟨c, rest, frontEq, visible⟩ := (emptyFrame none).exists_cons
    obtain ⟨rfl, _⟩ := List.cons.inj frontEq
    exact absurd visible (by decide)
  · obtain ⟨c, rest, frontEq, _⟩ := (frame none).exists_cons
    simp at frontEq

private theorem noClose_inner
    {front middle old gap back rest inner : Text}
    {tag : LocationTag}
    {lineBlank : Bool}
    (frame : Frame .blockComment front back)
    (shape :
      Lexeme.Shape lineBlank rest ⟨.trivia .blockComment, front ++ middle ++ old ++ back⟩)
    (textEq :
      front ++ middle ++ (gap ++ tag.render) ++ back = '/' :: '*' :: (inner ++ ['*', '/']))
    (gapEq : gap = [] ∨ gap = [' '])
    (pathOpen : ∀ path, tag.filePath = some path → Lexeme.NoClose path) :
    Lexeme.NoClose (inner ++ ['*']) := by
  obtain ⟨opened, closed, rfl, rfl⟩ := frame.exists_block
  have oldOpen :=
    shape.noClose
      (show _ = '/' :: '*' :: ((opened ++ middle) ++ old ++ closed ++ ['*', '/']) by simp)
  have innerEq : inner = (opened ++ middle) ++ (gap ++ tag.render) ++ closed := by
    have closedEq :
        inner ++ ['*', '/'] =
          (opened ++ middle) ++ (gap ++ tag.render) ++ closed ++ ['*', '/'] := by
      simpa using textEq.symm
    exact List.append_cancel_right closedEq
  rw [innerEq]
  exact noClose_written oldOpen gapEq pathOpen

/-- Every marker of a lexed text can be given another location tag. -/
theorem exists_rewrites
    {kind : TriviaKind}
    {position : Position}
    {offset : Nat}
    {text rest : Text}
    {lineBlank : Bool}
    {marker : Marker}
    {tag : LocationTag}
    (shape : Lexeme.Shape lineBlank rest ⟨.trivia kind, text⟩)
    (isMarker : PairingItem.ofPiece? kind position ⟨offset, text⟩ = some (.marker marker))
    (writable : tag.IsWritable) :
    ∃ text', marker.Rewrites tag kind offset text text' := by
  obtain
    ⟨⟨contentOffset, content⟩, candidateKind, keyword, word, innerEq, kindEq, keywordEq, rfl⟩ :=
    PairingItem.ofPiece?_eq_marker_iff.1 isMarker
  obtain ⟨front, back, textEq, offsetEq, frame, emptyFrame⟩ := shape.isFramed rfl innerEq
  obtain ⟨starts, ends⟩ := visible_inner? innerEq
  obtain ⟨lead, behind, leads, contentEq, admits⟩ := Candidate.exists_leads kindEq keywordEq
  simp only at textEq offsetEq frame emptyFrame starts ends kindEq contentEq
  subst contentEq
  obtain ⟨body, old, gap, slot⟩ := exists_tagSlot (Text.EndsVisible.of_append ends)
  have contentLine : kind ≠ .blockComment → '\n' ∉ lead ++ behind := by
    intro notBlock
    have textLine := shape.newline_notMem notBlock
    rw [textEq] at textLine
    simp only [List.mem_append, not_or] at textLine ⊢
    exact textLine.1.2
  obtain ⟨front', base, writtenEq, written, admitsWritten, baseEq⟩ :=
    exists_writtenIn frame emptyFrame starts contentLine leads slot writable admits
  have restEq := slot.rest_eq
  have textEq' : text = front ++ lead ++ body ++ old ++ back := by
    rw [textEq, restEq]
    simp
  have frontSome := front_ne_nil frame emptyFrame
  refine ⟨front ++ lead ++ body ++ (gap ++ tag.render) ++ back, ?_, ?_, ?_⟩
  · refine
      ⟨front ++ lead ++ body, old, gap ++ tag.render, back, textEq', rfl, by simp [frontSome],
        slot.newline_notMem_old, ?_, ?_, ?_⟩
    · intro member
      rcases List.mem_append.1 member with inGap | inTag
      · rcases slot.gap_cases with rfl | rfl <;> simp at inGap
      · exact (LocationTag.blankFree_render writable).newline_notMem inTag
    · rcases slot.gap_cases with rfl | rfl
      · exact Or.inl rfl
      · exact Or.inr rfl
    · intro different
      rw [edit?_ofContent leads.length_eq leads.byteSize_eq slot different, offsetEq]
      simp only [Text.byteSize_append, Option.some.injEq, TextEdit.mk.injEq, Span.mk.injEq,
        and_true]
      omega
  · intro offset' position'
    rw [writtenEq]
    obtain ⟨found, isFound, positionEq, keywordEq', formEq, tagEq, bodyEq⟩ :=
      ofPiece?_written written writable leads keywordEq admitsWritten offset' position'
    refine ⟨found, isFound, positionEq, keywordEq', formEq, ?_, tagEq⟩
    rw [bodyEq]
    simp only [Marker.ofContent, List.drop_left' leads.length_eq]
    cases keyword with
    | macroEnd => rfl
    | macroStart =>
        have notEnd : candidateKind ≠ .regionEnd := by
          rintro rfl
          simp [CandidateKind.keyword?] at keywordEq
        rw [baseEq notEnd]
        exact slot.bodyOf?_written _ _
  · intro lineBlank' rest₁ rest₂ shape₁ sameLine pathOpen
    rw [writtenEq]
    refine
      written.frame.shape written.solid shape₁.lineBlank_of_directive
        (fun notBlock =>
          firstLine_rest_cases (shape₁.line_ends notBlock) sameLine ?_)
        ?_
    · intro lastEq
      rw [← writtenEq] at lastEq
      rw [textEq']
      exact getLast?_return_of_written lastEq
    · rintro rfl inner innerTextEq
      have nonempty : lead ++ behind ≠ [] := by
        rcases leads.letter (Or.inr rfl) with headEq | headEq <;>
          (rintro none; simp [(List.append_eq_nil_iff.1 none).1] at headEq)
      rw [textEq', List.append_assoc front] at shape₁
      rw [← writtenEq, List.append_assoc front] at innerTextEq
      exact noClose_inner (frame nonempty) shape₁ innerTextEq slot.gap_cases (pathOpen rfl)

end MacroRegions

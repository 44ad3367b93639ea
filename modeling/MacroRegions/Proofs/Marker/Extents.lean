import Mathlib.Logic.Relation
import MacroRegions.Marker.Scan
import MacroRegions.Proofs.Marker.Slicing

/-!
Extents of candidates and markers.

The content of a candidate stands in its comment or directive. Its marker takes that
content apart: a keyword, the invocation between blanks and, behind a blank, perhaps a
location tag. The spans on the way hold just these texts.
-/

namespace MacroRegions

def Source.BlankBefore (source : Source) (offset : Nat) : Prop :=
  ∃ start c, source.slice? ⟨start, offset⟩ = some [c] ∧ isBlank c = true

namespace Piece

private theorem liesIn_part (offset : Nat) (front part back : Text) :
    (⟨offset + Text.byteSize front, part⟩ : Piece).LiesIn ⟨offset, front ++ part ++ back⟩ :=
  ⟨front, back, rfl, rfl⟩

theorem LiesIn.within {piece whole : Piece} (lies : piece.LiesIn whole) :
    whole.span.start ≤ piece.span.start ∧ piece.span.stop ≤ whole.span.stop := by
  obtain ⟨front, back, textEq, offsetEq⟩ := lies
  have sizeEq := congrArg Text.byteSize textEq
  simp only [Text.byteSize_append] at sizeEq
  simp only [span]
  omega

end Piece

private theorem Source.blankBefore_of_liesIn
    {source : Source}
    {offset : Nat}
    {front : Text}
    (back : Text)
    (lies : (⟨offset, front ++ back⟩ : Piece).LiesIn ⟨0, source.text⟩)
    (nonempty : front ≠ [])
    (lastBlank : ∀ c, front.getLast? = some c → isBlank c = true) :
    source.BlankBefore (offset + Text.byteSize front) := by
  cases List.eq_nil_or_concat' front with
  | inl none => exact absurd none nonempty
  | inr concat =>
      obtain ⟨before, c, rfl⟩ := concat
      have sliced := ((Piece.liesIn_part offset before [c] back).trans lies).slice?_eq
      refine ⟨offset + Text.byteSize before, c, ?_, lastBlank c (by simp)⟩
      simpa [Source.slice?, Piece.span, Text.byteSize_append, Nat.add_assoc] using sliced

namespace Candidate

/-- A candidate is read from the text of its trivia. -/
theorem exists_inner?_of_ofTrivia?
    {source : Source}
    {item : Trivia}
    {candidate : Candidate}
    (found : ofTrivia? source item = some candidate) :
    candidate.trivia = item.kind ∧
      candidate.position = source.positionOf item.span ∧
      ∃ text, source.slice? item.span = some text ∧
        inner? item.kind ⟨item.span.start, text⟩ = some candidate.content ∧
        kindOf? item.kind candidate.content.text = some candidate.kind := by
  obtain ⟨text, sliced, read⟩ := Option.bind_eq_some_iff.1 found
  obtain ⟨⟨kind, content⟩, contentEq, candidateEq⟩ := Option.bind_eq_some_iff.1 read
  rw [contentOf?_eq_bind] at contentEq
  obtain ⟨content', innerEq, mapped⟩ := Option.bind_eq_some_iff.1 contentEq
  obtain ⟨kind', kindEq, pairEq⟩ := Option.map_eq_some_iff.1 mapped
  obtain ⟨rfl, rfl⟩ := Prod.mk.inj pairEq
  obtain rfl := Option.some.inj candidateEq
  exact ⟨rfl, rfl, text, sliced, innerEq, kindEq⟩

theorem classify?_eq (candidate : Candidate) :
    candidate.classify? =
      candidate.kind.keyword?.map fun (keyword, word) =>
        Marker.ofContent keyword word candidate.trivia candidate.position candidate.content := by
  obtain ⟨kind, trivia, position, content⟩ := candidate
  cases kind <;> rfl

private theorem kind_of_kindOf?_regionEnd
    {kind : TriviaKind}
    {content : Text}
    (kindEq : kindOf? kind content = some .regionEnd) :
    kind = .endRegionDirective := by
  have notComment : commentKind? content ≠ some .regionEnd := by
    rw [commentKind?]
    split
    next => simp
    next => split <;> simp
  have notOpening : directiveKind .opening content ≠ .regionEnd := by
    rw [directiveKind]
    split <;> simp
  cases kind with
  | lineComment => exact absurd kindEq notComment
  | blockComment => exact absurd kindEq notComment
  | regionDirective => exact absurd (Option.some.inj kindEq) notOpening
  | endRegionDirective => rfl

/-- A blank tells the content of a directive apart from the keyword before it. -/
theorem blankBefore_of_directive
    {source : Source}
    {whole content : Piece}
    (lies : whole.LiesIn ⟨0, source.text⟩)
    (found : inner? .endRegionDirective whole = some content)
    (nonempty : content.text ≠ []) :
    source.BlankBefore content.offset := by
  obtain ⟨⟨directive, after⟩, reads, rfl⟩ := Option.map_eq_some_iff.1 found
  obtain ⟨_, _, _, _, _, ended, _⟩ := Directive.read?_eq_some_iff.1 reads
  have behindLies := (Piece.liesIn_pieceBehind reads).trans lies
  have starts := (visible_inner? found).1
  obtain ⟨front, back, afterEq, frontBlank, _, offsetEq⟩ :=
    Piece.exists_trim_frame (contentOf?.pieceBehind whole after)
  rw [offsetEq]
  apply Source.blankBefore_of_liesIn ((contentOf?.pieceBehind whole after).trim.text ++ back)
  · rwa [← List.append_assoc, ← afterEq]
  · -- Without a blank the keyword would go on with the content.
    intro none
    have afterEq' : after = (contentOf?.pieceBehind whole after).trim.text ++ back := by
      rw [none] at afterEq
      exact afterEq
    obtain ⟨c, headEq⟩ : ∃ c, (contentOf?.pieceBehind whole after).trim.text.head? = some c :=
      Option.isSome_iff_exists.1 (List.isSome_head?.2 nonempty)
    have afterHead : after.head? = some c := by
      rw [afterEq', List.head?_append, headEq, Option.some_or]
    have blank := Text.isBlank_of_endsWord ended afterHead
    rw [starts c headEq] at blank
    exact absurd blank Bool.false_ne_true
  · intro c lastEq
    exact frontBlank c (List.mem_of_getLast? lastEq)

end Candidate

/-- A location tag is written at the end of a piece of a source, as a word of
its own behind a blank. -/
structure LocationTag.IsWrittenAt
    (tag : LocationTag)
    (source : Source)
    (content : Piece)
    (span : Span) : Prop where
  stop_eq : span.stop = content.span.stop
  reads : ∃ word,
    source.slice? span = some word ∧ Text.BlankFree word ∧ parse? word = some tag
  blankBefore : source.BlankBefore span.start

namespace Marker

def tagText (source : Source) (marker : Marker) : Text :=
  (marker.tagSpan.bind source.slice?).getD []

/-- The text behind the keyword of a start marker is the invocation and the
location tag, with blanks around the invocation. -/
structure Fills (marker : Marker) (source : Source) (rest : Text) : Prop where
  framed : ∃ front back,
    rest = front ++ marker.body.getD [] ++ back ++ marker.tagText source ∧
      Text.AllBlank front ∧ Text.AllBlank back
  visible : ∀ body, marker.body = some body →
    body ≠ [] ∧ Text.StartsVisible body ∧ Text.EndsVisible body

/-- What a marker says about the candidate that it is read from, with `rest`
behind the keyword. -/
structure Describes
    (marker : Marker)
    (source : Source)
    (candidate : Candidate)
    (rest : Text) : Prop where
  insertOffset_eq : marker.insertOffset = candidate.content.span.stop
  tagged : ∀ tag, marker.tag = some tag →
    ∃ span, marker.tagSpan = some span ∧ tag.IsWrittenAt source candidate.content span
  untagged : marker.tag = none →
    marker.tagSpan = none ∧
      (∀ word, Text.IsLastWord word rest → LocationTag.parse? word = none) ∧
      (marker.malformedTag = true ↔ ∃ word, Text.IsLastWord word rest ∧ word.head? = some '#')
  commentEnd : candidate.kind = .commentEnd →
    marker.malformedTag = false ∧
      (marker.tag = none ↔ candidate.content.text = endKeyword)
  fills : marker.isStart = true → marker.form ≠ .blockComment → marker.Fills source rest

end Marker

private theorem bodyOf?_eq
    {form : MarkerForm}
    (notBlock : form ≠ .blockComment)
    (remainder : Text) :
    bodyOf? form remainder =
      if Text.trim remainder = [] then none else some (Text.trim remainder) := by
  rw [bodyOf?]
  cases trimmed : Text.trim remainder with
  | nil => rfl
  | cons c rest =>
      cases form with
      | blockComment => exact absurd rfl notBlock
      | region => rfl
      | lineComment => rfl

private theorem Marker.fills_of_remainder
    {marker : Marker}
    {source : Source}
    {rest : Text}
    (remainder : Text)
    (notBlock : marker.form ≠ .blockComment)
    (bodyEq : marker.body = bodyOf? marker.form remainder)
    (restEq : rest = remainder ++ marker.tagText source) :
    marker.Fills source rest := by
  rw [bodyOf?_eq notBlock] at bodyEq
  constructor
  · obtain ⟨front, back, remainderEq, frontBlank, backBlank⟩ := Text.exists_frame remainder
    have getDEq : marker.body.getD [] = Text.trim remainder := by
      rw [bodyEq]
      split
      next none => exact none.symm
      next => rfl
    refine ⟨front, back, ?_, frontBlank, backBlank⟩
    rw [restEq, getDEq, ← remainderEq]
  · intro body found
    rw [bodyEq] at found
    split at found
    next => simp at found
    next nonempty =>
      obtain rfl := Option.some.inj found
      exact ⟨nonempty, Text.startsVisible_trim remainder, Text.endsVisible_trim remainder⟩

private theorem Source.slice?_last
    {source : Source}
    {content : Piece}
    {front word : Text}
    (lies : content.LiesIn ⟨0, source.text⟩)
    (contentEq : content.text = front ++ word) :
    source.slice? (⟨content.offset + Text.byteSize front, word⟩ : Piece).span = some word := by
  have wordLies : (⟨content.offset + Text.byteSize front, word⟩ : Piece).LiesIn content :=
    ⟨front, [], by rw [contentEq, List.append_nil], rfl⟩
  exact (wordLies.trans lies).slice?_eq

private theorem LocationTag.isWrittenAt_of_parse?
    {source : Source}
    {content : Piece}
    {front word : Text}
    {tag : LocationTag}
    (lies : content.LiesIn ⟨0, source.text⟩)
    (contentEq : content.text = front ++ word)
    (wordFree : Text.BlankFree word)
    (reads : parse? word = some tag)
    (blankBefore : source.BlankBefore (content.offset + Text.byteSize front)) :
    tag.IsWrittenAt source content
      (⟨content.offset + Text.byteSize front, word⟩ : Piece).span := by
  constructor
  · simp only [Piece.span, contentEq, Text.byteSize_append]
    omega
  · exact ⟨word, Source.slice?_last lies contentEq, wordFree, reads⟩
  · exact blankBefore

/-- A blank stands before a location tag, whatever the keyword is. -/
theorem Candidate.blankBefore_tag
    {source : Source}
    {candidate : Candidate}
    {lead body old : Text}
    (lies : candidate.content.LiesIn ⟨0, source.text⟩)
    (spelled : candidate.kind.IsSpelledAs lead)
    (contentEq : candidate.content.text = lead ++ (body ++ old))
    (admits : candidate.kind.Admits (body ++ old))
    (bodyBlank : ∀ c, body.getLast? = some c → isBlank c = true)
    (headEq : old.head? = some '#')
    (afterDirective : candidate.kind = .regionEnd → candidate.content.text ≠ [] →
      source.BlankBefore candidate.content.offset) :
    source.BlankBefore (candidate.content.offset + Text.byteSize (lead ++ body)) := by
  by_cases bodyNil : body = []
  · subst bodyNil
    have notEnded : Text.endsWord old ≠ true := by
      intro ended
      exact absurd (Text.isBlank_of_endsWord ended headEq) (by decide)
    cases kindEq : candidate.kind with
    | regionEnd =>
        rw [kindEq] at spelled
        obtain rfl : lead = [] := spelled
        have nonempty : candidate.content.text ≠ [] := by
          intro none
          rw [contentEq, List.nil_append, List.nil_append] at none
          rw [none] at headEq
          simp at headEq
        exact afterDirective kindEq nonempty
    | plainRegionStart =>
        rw [kindEq] at admits
        exact admits.elim
    | regionStart =>
        rw [kindEq] at admits
        exact absurd admits notEnded
    | commentStart =>
        rw [kindEq] at admits
        exact absurd admits notEnded
    | commentEnd =>
        rw [kindEq] at admits
        exact absurd admits.1 notEnded
  · apply Source.blankBefore_of_liesIn old
    · rwa [List.append_assoc, ← contentEq]
    · simp [bodyNil]
    · intro c lastEq
      rw [List.getLast?_append_of_ne_nil _ bodyNil] at lastEq
      exact bodyBlank c lastEq

section Contents

variable {source : Source} {candidate : Candidate} {keyword : MarkerKeyword}
  {word lead rest : Text}

private theorem Payload.ofPiece_lead
    (leads : candidate.kind.Leads candidate.trivia word lead)
    (contentEq : candidate.content.text = lead ++ rest) :
    Payload.ofPiece
        ⟨candidate.content.offset + Text.byteSize word, candidate.content.text.drop word.length⟩ =
      Payload.ofPiece ⟨candidate.content.offset + Text.byteSize lead, rest⟩ := by
  rw [contentEq, ← leads.byteSize_eq, ← leads.length_eq, List.drop_left]

theorem Candidate.content_eq_endKeyword_iff
    (spelled : candidate.kind.IsSpelledAs lead)
    (contentEq : candidate.content.text = lead ++ rest)
    (isEnd : candidate.kind = .commentEnd) :
    candidate.content.text = endKeyword ↔ rest = [] := by
  rw [isEnd] at spelled
  obtain rfl : lead = endKeyword := spelled
  rw [contentEq, List.append_right_eq_self]

private theorem Marker.body_ofContent
    {kind : TriviaKind}
    {position : Position}
    {content : Piece}
    (isStart : (Marker.ofContent keyword word kind position content).isStart = true) :
    (Marker.ofContent keyword word kind position content).body =
      bodyOf? (MarkerForm.ofTriviaKind kind)
        (Payload.ofPiece
          ⟨content.offset + Text.byteSize word, content.text.drop word.length⟩).remainder := by
  obtain rfl : keyword = .macroStart := of_decide_eq_true isStart
  rfl

private theorem Marker.describes_tagged
    {body old : Text}
    {tag : LocationTag}
    (lies : candidate.content.LiesIn ⟨0, source.text⟩)
    (leads : candidate.kind.Leads candidate.trivia word lead)
    (contentEq : candidate.content.text = lead ++ (body ++ old))
    (admits : candidate.kind.Admits (body ++ old))
    (wordFree : Text.BlankFree old)
    (bodyBlank : ∀ c, body.getLast? = some c → isBlank c = true)
    (reads : LocationTag.parse? old = some tag)
    (afterDirective : candidate.kind = .regionEnd → candidate.content.text ≠ [] →
      source.BlankBefore candidate.content.offset) :
    (Marker.ofContent keyword word candidate.trivia candidate.position
      candidate.content).Describes source candidate (body ++ old) := by
  have payloadEq := Payload.ofPiece_lead leads contentEq
  rw [Payload.ofPiece_append wordFree bodyBlank reads] at payloadEq
  have headEq := LocationTag.head?_of_parse? reads
  have blankBefore :=
    Candidate.blankBefore_tag lies leads.spelled contentEq admits bodyBlank headEq afterDirective
  have contentEq' : candidate.content.text = (lead ++ body) ++ old := by
    rw [contentEq, List.append_assoc]
  have written :=
    LocationTag.isWrittenAt_of_parse? lies contentEq' wordFree reads blankBefore
  have spanEq :
      (Marker.ofContent keyword word candidate.trivia candidate.position
          candidate.content).tagSpan =
        some (⟨candidate.content.offset + Text.byteSize (lead ++ body), old⟩ : Piece).span := by
    simp only [Marker.ofContent, payloadEq, Piece.span, Text.byteSize_append, Nat.add_assoc]
  have tagEq :
      (Marker.ofContent keyword word candidate.trivia candidate.position
          candidate.content).tag = some tag := by
    simp only [Marker.ofContent, payloadEq]
  constructor
  · rfl
  · intro other otherEq
    obtain rfl := Option.some.inj (tagEq.symm.trans otherEq)
    exact ⟨_, spanEq, written⟩
  · intro none
    rw [tagEq] at none
    simp at none
  · intro isEnd
    refine ⟨by simp only [Marker.ofContent, payloadEq], ?_⟩
    have nonempty : body ++ old ≠ [] := by
      intro none
      rw [(List.append_eq_nil_iff.1 none).2] at headEq
      simp at headEq
    rw [tagEq, Candidate.content_eq_endKeyword_iff leads.spelled contentEq isEnd]
    simp [nonempty]
  · intro isStart notBlock
    apply Marker.fills_of_remainder body notBlock
    · rw [Marker.body_ofContent isStart, payloadEq]
      rfl
    · rw [Marker.tagText, spanEq, Option.bind_some, Source.slice?_last lies contentEq',
        Option.getD_some]

private theorem Marker.describes_untagged
    (leads : candidate.kind.Leads candidate.trivia word lead)
    (contentEq : candidate.content.text = lead ++ rest)
    (admits : candidate.kind.Admits rest)
    (ends : Text.EndsVisible rest)
    (noTag : LocationTag.parse? (Text.splitLastWord rest).2 = none) :
    (Marker.ofContent keyword word candidate.trivia candidate.position
      candidate.content).Describes source candidate rest := by
  have payloadEq := Payload.ofPiece_lead leads contentEq
  rw [Payload.ofPiece_eq_untagged ends noTag] at payloadEq
  constructor
  · rfl
  · intro other otherEq
    simp only [Marker.ofContent, payloadEq] at otherEq
    simp at otherEq
  · intro _
    refine ⟨by simp only [Marker.ofContent, payloadEq], ?_, ?_⟩
    · intro other isLast
      obtain ⟨_, rfl⟩ := (Text.isLastWord_iff_of_endsVisible ends).1 isLast
      exact noTag
    · simp only [Marker.ofContent, payloadEq, decide_eq_true_eq]
      exact Text.head?_splitLastWord_iff ends
  · intro isEnd
    rw [isEnd] at admits
    have slot := TagSlot.untagged rest ends noTag
    have restNil : rest = [] :=
      Text.AllBlank.eq_nil
        (fun c inRest => slot.allBlank_of_isEndSuffix admits.2 c (List.mem_append_left _ inRest))
        ends
    rw [Candidate.content_eq_endKeyword_iff leads.spelled contentEq isEnd]
    simp only [Marker.ofContent, payloadEq, restNil]
    simp [Text.splitLastWord]
  · intro isStart notBlock
    apply Marker.fills_of_remainder rest notBlock
    · rw [Marker.body_ofContent isStart, payloadEq]
      rfl
    · simp [Marker.tagText, Marker.ofContent, payloadEq]

end Contents

/-! ## Scanned candidates -/

/-- What a scan says about a candidate that it finds in a source: the content
stands in the trivia, and the marker describes the content. -/
structure Candidate.IsScanned (source : Source) (trivia : List Trivia) (candidate : Candidate) :
    Prop where
  origin : ∃ item ∈ trivia,
    candidate.position.span = item.span ∧
      item.span.start ≤ candidate.content.span.start ∧
      candidate.content.span.stop ≤ item.span.stop
  slice?_eq : source.slice? candidate.content.span = some candidate.content.text
  classify?_eq_none_iff : candidate.classify? = none ↔ candidate.kind = .plainRegionStart
  describes : ∀ marker, candidate.classify? = some marker →
    ∃ lead rest,
      candidate.content.text = lead ++ rest ∧
        candidate.kind.IsSpelledAs lead ∧
        marker.Describes source candidate rest

private theorem Candidate.exists_describes
    {source : Source}
    {candidate : Candidate}
    {marker : Marker}
    (lies : candidate.content.LiesIn ⟨0, source.text⟩)
    (ends : Text.EndsVisible candidate.content.text)
    (kindEq : kindOf? candidate.trivia candidate.content.text = some candidate.kind)
    (afterDirective : candidate.kind = .regionEnd → candidate.content.text ≠ [] →
      source.BlankBefore candidate.content.offset)
    (classified : candidate.classify? = some marker) :
    ∃ lead rest,
      candidate.content.text = lead ++ rest ∧
        candidate.kind.IsSpelledAs lead ∧
        marker.Describes source candidate rest := by
  rw [classify?_eq] at classified
  obtain ⟨⟨keyword, word⟩, keywordEq, rfl⟩ := Option.map_eq_some_iff.1 classified
  obtain ⟨lead, rest, leads, contentEq, admits⟩ := exists_leads kindEq keywordEq
  rw [contentEq] at ends
  have restEnds := Text.EndsVisible.of_append ends
  refine ⟨lead, rest, contentEq, leads.spelled, ?_⟩
  obtain ⟨body, old, gap, slot⟩ := exists_tagSlot restEnds
  cases slot with
  | tagged _ _ tag wordFree bodyBlank reads =>
      exact
        Marker.describes_tagged lies leads contentEq admits wordFree bodyBlank reads
          afterDirective
  | untagged _ _ noTag =>
      exact Marker.describes_untagged leads contentEq admits restEnds noTag

private theorem Candidate.isScanned_of_mem
    {source : Source}
    {trivia : List Trivia}
    {candidate : Candidate}
    (accepted : Trivia.firstFault? source.text trivia = none)
    (member : candidate ∈ candidates source trivia) :
    candidate.IsScanned source trivia := by
  obtain ⟨item, itemMember, found⟩ := List.mem_filterMap.1 member
  have holds := (Trivia.firstFault?_eq_none_iff.1 accepted).1 item itemMember
  obtain ⟨triviaEq, positionEq, text, sliced, innerEq, kindEq⟩ :=
    exists_inner?_of_ofTrivia? found
  have wholeLies := Piece.liesIn_of_slice? sliced
  have contentLies := liesIn_inner? innerEq
  constructor
  · refine ⟨item, itemMember, ?_, ?_⟩
    · rw [positionEq, Position.span, Source.start_offset_positionOf holds,
        Source.stop_offset_positionOf holds]
    · obtain ⟨_, _, _, _, stopEq⟩ := Text.slice?_eq_some_iff.1 sliced
      have within := contentLies.within
      simp only [Piece.span, stopEq] at within
      exact within
  · exact (contentLies.trans wholeLies).slice?_eq
  · rw [classify?_eq, Option.map_eq_none_iff]
    cases candidate.kind <;> simp [CandidateKind.keyword?]
  · intro marker classified
    have kindEq' : kindOf? candidate.trivia candidate.content.text = some candidate.kind := by
      rwa [triviaEq]
    apply exists_describes (contentLies.trans wholeLies) (visible_inner? innerEq).2 kindEq' ?_
      classified
    intro isEnd nonempty
    rw [isEnd] at kindEq
    rw [kind_of_kindOf?_regionEnd kindEq] at innerEq
    exact blankBefore_of_directive wholeLies innerEq nonempty

namespace Scan

/-- A scan moves on: behind the next candidate, to its end if there is none, or
ahead to an offset. -/
inductive Moves (scan : Scan) : Scan → Prop where
  | next (candidate : Candidate) (rest : Scan)
      (found : scan.next? = some (candidate, rest)) :
      Moves scan rest
  | finish (nothing : scan.next? = none) : Moves scan { scan with pending := [] }
  | resume (offset : Nat) : Moves scan (scan.startingAt offset)

private theorem exists_of_nextIn?
    {source : Source}
    {pending rest : List Trivia}
    {candidate : Candidate}
    (found : nextIn? source pending = some (candidate, rest)) :
    ∃ front item,
      pending = front ++ item :: rest ∧ Candidate.ofTrivia? source item = some candidate := by
  induction pending with
  | nil => simp [nextIn?] at found
  | cons item later inductionHypothesis =>
      rw [nextIn?] at found
      split at found
      next candidateEq =>
        obtain ⟨rfl, rfl⟩ := Prod.mk.inj (Option.some.inj found)
        exact ⟨[], item, rfl, candidateEq⟩
      next =>
        obtain ⟨front, item', laterEq, candidateEq⟩ := inductionHypothesis found
        exact ⟨item :: front, item', by rw [laterEq, List.cons_append], candidateEq⟩

/-- The next candidate is one of the pending trivia, and the scan goes on behind
it. -/
theorem exists_of_next?
    {scan rest : Scan}
    {candidate : Candidate}
    (found : scan.next? = some (candidate, rest)) :
    rest.source = scan.source ∧
      ∃ front item,
        scan.pending = front ++ item :: rest.pending ∧
          Candidate.ofTrivia? scan.source item = some candidate := by
  obtain ⟨⟨candidate', behind⟩, foundIn, pairEq⟩ := Option.map_eq_some_iff.1 found
  obtain ⟨rfl, rfl⟩ := Prod.mk.inj pairEq
  exact ⟨rfl, exists_of_nextIn? foundIn⟩

/-- No move brings trivia back. -/
theorem Moves.suffix {scan later : Scan} (moves : scan.Moves later) :
    later.source = scan.source ∧ later.pending <:+ scan.pending := by
  cases moves with
  | next candidate rest found =>
      obtain ⟨sourceEq, front, item, pendingEq, _⟩ := exists_of_next? found
      exact ⟨sourceEq, front ++ [item], by simp [pendingEq]⟩
  | finish nothing => exact ⟨rfl, List.nil_suffix⟩
  | resume offset => exact ⟨rfl, List.drop_suffix _ _⟩

theorem suffix_of_moves
    {scan later : Scan}
    (moves : Relation.ReflTransGen Moves scan later) :
    later.source = scan.source ∧ later.pending <:+ scan.pending := by
  induction moves with
  | refl => exact ⟨rfl, List.suffix_rfl⟩
  | tail _ last inductionHypothesis =>
      obtain ⟨sourceEq, suffix⟩ := last.suffix
      exact
        ⟨sourceEq.trans inductionHypothesis.1, suffix.trans inductionHypothesis.2⟩

/-- However a scan of accepted trivia has moved on, the spans of the candidate
that it finds next and those of its marker describe the source. -/
theorem candidates_describe_source
    {source : Source}
    {trivia : List Trivia}
    {scan rest : Scan}
    {candidate : Candidate}
    (accepted : Trivia.firstFault? source.text trivia = none)
    (moves : Relation.ReflTransGen Moves ⟨source, trivia⟩ scan)
    (found : scan.next? = some (candidate, rest)) :
    candidate.IsScanned source trivia := by
  obtain ⟨sourceEq, suffix⟩ : scan.source = source ∧ scan.pending <:+ trivia :=
    suffix_of_moves moves
  obtain ⟨_, front, item, pendingEq, candidateEq⟩ := exists_of_next? found
  apply Candidate.isScanned_of_mem accepted
  apply List.mem_filterMap.2
  refine ⟨item, suffix.subset ?_, ?_⟩
  · simp [pendingEq]
  · rwa [← sourceEq]

/-- A region whose keyword is in mixed case and whose end has a location tag
behind a blank of three bytes. -/
def spacedText : Text :=
  "#region mAcRo Sum #1x\n#endregion\u3000#12\n".toList

def spacedScan : Scan :=
  ⟨Source.ofText spacedText, Trivia.extract spacedText⟩

theorem candidates_describe_source_spacedText :
    Trivia.firstFault? (Source.ofText spacedText).text (Trivia.extract spacedText) = none ∧
      ∃ opening rest closing last,
        spacedScan.next? = some (opening, rest) ∧
          Relation.ReflTransGen Moves spacedScan rest ∧
          rest.next? = some (closing, last) ∧
          closing.IsScanned (Source.ofText spacedText) (Trivia.extract spacedText) ∧
          closing.classify?.bind (·.tagSpan) = some ⟨35, 38⟩ := by
  have accepted :
      Trivia.firstFault? (Source.ofText spacedText).text (Trivia.extract spacedText) = none :=
    Trivia.firstFault?_extract spacedText
  have spans :
      (spacedScan.next?.bind fun found => found.2.next?).bind
          (fun found => found.1.classify?.bind (·.tagSpan)) =
        some ⟨35, 38⟩ := by
    decide +kernel
  obtain ⟨⟨closing, last⟩, foundTwice, spanEq⟩ := Option.bind_eq_some_iff.1 spans
  obtain ⟨⟨opening, rest⟩, found, foundNext⟩ := Option.bind_eq_some_iff.1 foundTwice
  have moves : Relation.ReflTransGen Moves spacedScan rest := .single (.next opening rest found)
  exact
    ⟨accepted, opening, rest, closing, last, found, moves, foundNext,
      candidates_describe_source accepted moves foundNext, spanEq⟩

end Scan

end MacroRegions

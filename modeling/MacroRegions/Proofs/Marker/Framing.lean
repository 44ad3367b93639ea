import MacroRegions.Marker.Candidate
import MacroRegions.Proofs.Text.Words
import MacroRegions.Proofs.Trivia.Shapes

/-!
Contents and their frames.

The text of a comment or a directive is its content with a frame around it:
delimiters, stars, the directive's keyword and blanks. Another content in the same
frame is found there again if nothing of it looks like a part of the frame.
-/

namespace MacroRegions

namespace Piece

theorem trim_append_append
    {front content back : Text}
    (offset : Nat)
    (frontBlank : Text.AllBlank front)
    (nonempty : content ≠ [])
    (starts : Text.StartsVisible content)
    (ends : Text.EndsVisible content)
    (backBlank : Text.AllBlank back) :
    (⟨offset, front ++ content ++ back⟩ : Piece).trim =
      ⟨offset + Text.byteSize front, content⟩ := by
  have trimmed := Text.trim_append_append frontBlank starts ends backBlank
  have indent : Text.indentSize (front ++ content ++ back) = Text.byteSize front := by
    rw [Text.indentSize, List.append_assoc,
      Text.takeWhile_isBlank_append frontBlank (starts.append back nonempty)]
  cases content with
  | nil => exact absurd rfl nonempty
  | cons c rest => simp only [trim, trimmed, indent]

/-- A piece is the trimmed piece with blanks around it. -/
theorem exists_trim_frame (piece : Piece) :
    ∃ front back,
      piece.text = front ++ piece.trim.text ++ back ∧
        Text.AllBlank front ∧ Text.AllBlank back ∧
        piece.trim.offset = piece.offset + Text.byteSize front := by
  obtain ⟨front, back, equality, frontBlank, backBlank⟩ := Text.exists_frame piece.text
  by_cases nonempty : Text.trim piece.text = []
  · refine ⟨[], piece.text, ?_, by simp [Text.AllBlank], ?_, ?_⟩
    · simp [trim, nonempty]
    · rw [equality, nonempty, List.append_nil]
      intro c member
      rcases List.mem_append.1 member with inFront | inBack
      · exact frontBlank c inFront
      · exact backBlank c inBack
    · simp [trim, nonempty]
  · have trimmed :
        (⟨piece.offset, front ++ Text.trim piece.text ++ back⟩ : Piece).trim =
          ⟨piece.offset + Text.byteSize front, Text.trim piece.text⟩ :=
      trim_append_append piece.offset frontBlank nonempty (Text.startsVisible_trim _)
        (Text.endsVisible_trim _) backBlank
    rw [← equality] at trimmed
    refine ⟨front, back, ?_, frontBlank, backBlank, ?_⟩
    · rw [trimmed]
      exact equality
    · rw [trimmed]

theorem text_trim (piece : Piece) : piece.trim.text = Text.trim piece.text := by
  unfold trim
  split
  · next equality => exact equality.symm
  · rfl

theorem dropLeading_append
    {c : Char}
    {marks rest : Text}
    (offset : Nat)
    (allMarks : ∀ d ∈ marks, d = c)
    (stops : rest.head? ≠ some c) :
    (⟨offset, marks ++ rest⟩ : Piece).dropLeading c =
      ⟨offset + Text.byteSize marks, rest⟩ := by
  have passes : ∀ d ∈ marks, decide (d = c) = true := fun d member => by
    simpa using allMarks d member
  have restStops :
      rest.takeWhile (· = c) = [] ∧ rest.dropWhile (· = c) = rest := by
    cases rest with
    | nil => simp
    | cons d rest =>
        have different : d ≠ c := by simpa using stops
        simp [different]
  simp only [dropLeading, List.takeWhile_append_of_pos passes,
    List.dropWhile_append_of_pos passes, restStops.1, restStops.2, List.append_nil]

theorem exists_dropLeading_frame (c : Char) (piece : Piece) :
    ∃ marks,
      piece.text = marks ++ (piece.dropLeading c).text ∧
        (∀ d ∈ marks, d = c) ∧
        (piece.dropLeading c).offset = piece.offset + Text.byteSize marks := by
  refine ⟨piece.text.takeWhile (· = c), List.takeWhile_append_dropWhile.symm, ?_, rfl⟩
  intro d member
  simpa using List.all_eq_true.1 List.all_takeWhile d member

theorem dropTrailing_append
    {c : Char}
    {front marks : Text}
    (offset : Nat)
    (allMarks : ∀ d ∈ marks, d = c)
    (stops : front.getLast? ≠ some c) :
    (⟨offset, front ++ marks⟩ : Piece).dropTrailing c = ⟨offset, front⟩ := by
  have passes : ∀ d ∈ marks.reverse, decide (d = c) = true := fun d member => by
    simpa using allMarks d (List.mem_reverse.1 member)
  have frontStops : front.reverse.dropWhile (· = c) = front.reverse := by
    cases reversed : front.reverse with
    | nil => simp
    | cons d rest =>
        have lastEq : front.getLast? = some d := by
          rw [← List.head?_reverse, reversed, List.head?_cons]
        have different : d ≠ c := by
          rintro rfl
          exact stops lastEq
        simp [different]
  simp only [dropTrailing, List.reverse_append, List.dropWhile_append_of_pos passes, frontStops,
    List.reverse_reverse]

theorem exists_dropTrailing_frame (c : Char) (piece : Piece) :
    ∃ marks,
      piece.text = (piece.dropTrailing c).text ++ marks ∧
        (∀ d ∈ marks, d = c) ∧
        (piece.dropTrailing c).offset = piece.offset := by
  refine ⟨(piece.text.reverse.takeWhile (· = c)).reverse, ?_, ?_, rfl⟩
  · rw [dropTrailing, ← List.reverse_append, List.takeWhile_append_dropWhile,
      List.reverse_reverse]
  · intro d member
    simpa using List.all_eq_true.1 List.all_takeWhile d (List.mem_reverse.1 member)

end Piece

namespace Directive

private theorem afterKeyword?_append
    {directive : Directive}
    {after : Text}
    (ended : Text.endsWord after = true) :
    directive.afterKeyword? (directive.keyword ++ after) = some after := by
  have found : Text.afterPrefix? directive.keyword (directive.keyword ++ after) = some after :=
    Text.afterPrefix?_eq_some_iff.2 rfl
  rw [afterKeyword?, found, Option.filter_some, if_pos ended]

theorem afterKeyword?_eq_some
    {directive : Directive}
    {text after : Text}
    (found : directive.afterKeyword? text = some after) :
    text = directive.keyword ++ after ∧ Text.endsWord after = true := by
  obtain ⟨prefixed, ended⟩ := Option.filter_eq_some_iff.1 found
  exact ⟨Text.afterPrefix?_eq_some_iff.1 prefixed, ended⟩

/-- A line is a directive when it is a `#`, perhaps with blanks before and
spaces and tabs behind it, and the keyword as a whole word. -/
theorem read?_eq_some_iff {line after : Text} {directive : Directive} :
    read? line = some (directive, after) ↔
      ∃ indent gap,
        line = indent ++ '#' :: (gap ++ (directive.keyword ++ after)) ∧
          Text.AllBlank indent ∧
          (∀ c ∈ gap, c = ' ' ∨ c = '\t') ∧
          Text.endsWord after = true ∧
          '\n' ∉ line := by
  constructor
  · intro reads
    unfold read? at reads
    split at reads
    · simp at reads
    · next oneLine =>
        split at reads
        · next rest trimmed =>
            have lineEq := Text.takeWhile_append_trimStart line
            rw [trimmed] at lineEq
            have restEq :=
              List.takeWhile_append_dropWhile (p := fun c => c = ' ' || c = '\t') (l := rest)
            have gapChars :
                ∀ c ∈ rest.takeWhile (fun c => c = ' ' || c = '\t'), c = ' ' ∨ c = '\t' := by
              intro c member
              simpa using List.all_eq_true.1 List.all_takeWhile c member
            have indentBlank : Text.AllBlank (line.takeWhile isBlank) :=
              List.all_eq_true.1 List.all_takeWhile
            have shape :
                rest.dropWhile (fun c => c = ' ' || c = '\t') = directive.keyword ++ after ∧
                  Text.endsWord after = true := by
              simp only at reads
              split at reads
              · next closed =>
                  obtain ⟨rfl, rfl⟩ := Prod.mk.inj (Option.some.inj reads)
                  exact afterKeyword?_eq_some closed
              · obtain ⟨_, opened, pairEq⟩ := Option.map_eq_some_iff.1 reads
                obtain ⟨rfl, rfl⟩ := Prod.mk.inj pairEq
                exact afterKeyword?_eq_some opened
            refine ⟨_, _, ?_, indentBlank, gapChars, shape.2, oneLine⟩
            rw [← shape.1, restEq, lineEq]
        · simp at reads
  · rintro ⟨indent, gap, lineEq, indentBlank, gapChars, ended, oneLine⟩
    have starts :
        Text.StartsVisible ('#' :: (gap ++ (directive.keyword ++ after))) := by
      intro c headEq
      obtain rfl := Option.some.inj headEq
      decide
    have trimmed :
        Text.trimStart line = '#' :: (gap ++ (directive.keyword ++ after)) := by
      rw [lineEq, Text.trimStart_append indentBlank, Text.trimStart_eq_self starts]
    have gapPasses : ∀ c ∈ gap, (c = ' ' || c = '\t') = true := by
      intro c member
      simpa using gapChars c member
    have dropped :
        (gap ++ (directive.keyword ++ after)).dropWhile (fun c => c = ' ' || c = '\t') =
          directive.keyword ++ after := by
      rw [List.dropWhile_append_of_pos gapPasses]
      cases directive <;> simp [keyword]
    rw [read?, if_neg oneLine, trimmed]
    simp only [dropped]
    cases directive with
    | closing => rw [afterKeyword?_append ended]
    | opening =>
        have notClosing : closing.afterKeyword? (opening.keyword ++ after) = none := rfl
        rw [notClosing, afterKeyword?_append ended]
        rfl

end Directive

namespace Candidate

/-- The content of a comment or a directive: what it holds, without the blanks
around it. -/
def inner? (kind : TriviaKind) (whole : Piece) : Option Piece :=
  match kind with
  | .lineComment | .blockComment => (commentInner? kind whole).map Piece.trim
  | .regionDirective | .endRegionDirective =>
    (Directive.read? whole.text).map fun (_, after) => (contentOf?.pieceBehind whole after).trim

def kindOf? (kind : TriviaKind) (content : Text) : Option CandidateKind :=
  match kind with
  | .lineComment | .blockComment => commentKind? content
  | .regionDirective => some (directiveKind .opening content)
  | .endRegionDirective => some (directiveKind .closing content)

theorem contentOf?_eq_bind (kind : TriviaKind) (whole : Piece) :
    contentOf? kind whole =
      (inner? kind whole).bind fun content =>
        (kindOf? kind content.text).map (·, content) := by
  cases kind with
  | lineComment =>
      cases found : commentInner? .lineComment whole with
      | none => simp [contentOf?, inner?, found]
      | some inner =>
          cases kindEq : commentKind? inner.trim.text with
          | none => simp [contentOf?, inner?, found, kindOf?, kindEq]
          | some candidateKind => simp [contentOf?, inner?, found, kindOf?, kindEq]
  | blockComment =>
      cases found : commentInner? .blockComment whole with
      | none => simp [contentOf?, inner?, found]
      | some inner =>
          cases kindEq : commentKind? inner.trim.text with
          | none => simp [contentOf?, inner?, found, kindOf?, kindEq]
          | some candidateKind => simp [contentOf?, inner?, found, kindOf?, kindEq]
  | regionDirective =>
      cases found : Directive.read? whole.text with
      | none => simp [contentOf?, inner?, found]
      | some pair => simp [contentOf?, inner?, found, kindOf?]
  | endRegionDirective =>
      cases found : Directive.read? whole.text with
      | none => simp [contentOf?, inner?, found]
      | some pair => simp [contentOf?, inner?, found, kindOf?]

end Candidate

/-! ## Frames -/

/-- What stands around the content of a comment or a directive. -/
inductive Frame : TriviaKind → Text → Text → Prop where
  | lineComment (slashes indent back : Text)
      (allSlashes : ∀ c ∈ slashes, c = '/')
      (indentBlank : Text.AllBlank indent)
      (backBlank : Text.AllBlank back)
      (oneLine : '\n' ∉ indent ++ back) :
      Frame .lineComment ('/' :: '/' :: (slashes ++ indent)) back
  | blockComment (stars indent back stars' : Text)
      (allStars : ∀ c ∈ stars, c = '*')
      (indentBlank : Text.AllBlank indent)
      (backBlank : Text.AllBlank back)
      (allStars' : ∀ c ∈ stars', c = '*') :
      Frame .blockComment ('/' :: '*' :: (stars ++ indent)) (back ++ (stars' ++ ['*', '/']))
  | directive (directive : Directive) (gap indent back : Text)
      (gapChars : ∀ c ∈ gap, c = ' ' ∨ c = '\t')
      (nonempty : indent ≠ [])
      (indentBlank : Text.AllBlank indent)
      (backBlank : Text.AllBlank back)
      (oneLine : '\n' ∉ indent ++ back) :
      Frame directive.triviaKind ('#' :: (gap ++ (directive.keyword ++ indent))) back

/-- A content that is found again in a frame: nothing of it looks like a part
of the frame. -/
structure IsSolid (kind : TriviaKind) (content : Text) : Prop where
  nonempty : content ≠ []
  starts : Text.StartsVisible content
  ends : Text.EndsVisible content
  oneLine : kind ≠ .blockComment → '\n' ∉ content
  lineFirst : kind = .lineComment → content.head? ≠ some '/'
  blockFirst : kind = .blockComment → content.head? ≠ some '*'
  blockLast : kind = .blockComment → content.getLast? ≠ some '*'

theorem Frame.exists_cons
    {kind : TriviaKind}
    {front back : Text}
    (frame : Frame kind front back) :
    ∃ c rest, front = c :: rest ∧ isBlank c = false := by
  cases frame with
  | lineComment => exact ⟨'/', _, rfl, by decide⟩
  | blockComment => exact ⟨'/', _, rfl, by decide⟩
  | directive => exact ⟨'#', _, rfl, by decide⟩

theorem Frame.exists_block
    {front back : Text}
    (frame : Frame .blockComment front back) :
    ∃ opened closed, front = '/' :: '*' :: opened ∧ back = closed ++ ['*', '/'] := by
  generalize kindEq : TriviaKind.blockComment = kind at frame
  cases frame with
  | lineComment => simp at kindEq
  | directive directive => cases directive <;> simp [Directive.triviaKind] at kindEq
  | blockComment stars indent back stars' => exact ⟨_, back ++ stars', rfl, by simp⟩

private theorem head?_append_ne
    {indent content : Text}
    {c : Char}
    (visible : isBlank c = false)
    (indentBlank : Text.AllBlank indent)
    (nonempty : content ≠ [])
    (contentNe : content.head? ≠ some c)
    (back : Text) :
    (indent ++ content ++ back).head? ≠ some c := by
  intro headEq
  cases indent with
  | nil =>
      cases content with
      | nil => exact nonempty rfl
      | cons d rest => exact contentNe headEq
  | cons d rest =>
      obtain rfl : d = c := by simpa using headEq
      rw [indentBlank d List.mem_cons_self] at visible
      exact absurd visible (by decide)

private theorem getLast?_append_ne
    {content back : Text}
    {c : Char}
    (visible : isBlank c = false)
    (backBlank : Text.AllBlank back)
    (nonempty : content ≠ [])
    (contentNe : content.getLast? ≠ some c)
    (front : Text) :
    (front ++ content ++ back).getLast? ≠ some c := by
  have reversed : (back.reverse ++ content.reverse ++ front.reverse).head? ≠ some c := by
    refine head?_append_ne visible ?_ (by simpa using nonempty) ?_ _
    · exact fun d member => backBlank d (List.mem_reverse.1 member)
    · rwa [List.head?_reverse]
  rw [← List.head?_reverse]
  simpa using reversed

private theorem newline_notMem_directive
    {directive : Directive}
    {gap indent back content : Text}
    (gapChars : ∀ c ∈ gap, c = ' ' ∨ c = '\t')
    (oneLine : '\n' ∉ indent ++ back)
    (contentLine : '\n' ∉ content) :
    '\n' ∉ '#' :: (gap ++ (directive.keyword ++ indent)) ++ content ++ back := by
  have gapLine : '\n' ∉ gap := by
    intro member
    have isGap := gapChars '\n' member
    simp at isGap
  have keywordLine : '\n' ∉ directive.keyword := by
    cases directive <;> decide
  simp only [List.mem_append, not_or] at oneLine
  simp [gapLine, keywordLine, contentLine, oneLine]

private theorem read?_directive_frame
    {directive : Directive}
    {gap indent back content : Text}
    (gapChars : ∀ c ∈ gap, c = ' ' ∨ c = '\t')
    (nonempty : indent ≠ [])
    (indentBlank : Text.AllBlank indent)
    (oneLine : '\n' ∉ indent ++ back)
    (solid : IsSolid directive.triviaKind content) :
    Directive.read? ('#' :: (gap ++ (directive.keyword ++ indent)) ++ content ++ back) =
      some (directive, indent ++ content ++ back) := by
  have ended : Text.endsWord (indent ++ content ++ back) = true := by
    cases indent with
    | nil => exact absurd rfl nonempty
    | cons c rest => exact indentBlank c List.mem_cons_self
  have contentLine : '\n' ∉ content := by
    refine solid.oneLine ?_
    cases directive <;> simp [Directive.triviaKind]
  have wholeEq :
      '#' :: (gap ++ (directive.keyword ++ indent)) ++ content ++ back =
        [] ++ '#' :: (gap ++ (directive.keyword ++ (indent ++ content ++ back))) := by
    simp
  refine Directive.read?_eq_some_iff.2
    ⟨[], gap, wholeEq, by simp [Text.AllBlank], gapChars, ended, ?_⟩
  exact newline_notMem_directive gapChars oneLine contentLine

/-- A solid content is found in its frame. -/
theorem Frame.inner?_eq
    {kind : TriviaKind}
    {front back content : Text}
    (frame : Frame kind front back)
    (solid : IsSolid kind content)
    (offset : Nat) :
    Candidate.inner? kind ⟨offset, front ++ content ++ back⟩ =
      some ⟨offset + Text.byteSize front, content⟩ := by
  cases frame with
  | lineComment slashes indent back allSlashes indentBlank backBlank oneLine =>
      have dropped :
          (⟨offset, '/' :: '/' :: slashes ++ (indent ++ content ++ back)⟩ : Piece).dropLeading '/' =
            ⟨offset + Text.byteSize ('/' :: '/' :: slashes), indent ++ content ++ back⟩ :=
        Piece.dropLeading_append offset (by simpa using allSlashes)
          (head?_append_ne (by decide) indentBlank solid.nonempty (solid.lineFirst rfl) back)
      have trimmed :=
        Piece.trim_append_append (offset + Text.byteSize ('/' :: '/' :: slashes)) indentBlank
          solid.nonempty solid.starts solid.ends backBlank
      simp only [Candidate.inner?, commentInner?, Option.map_some]
      simp only [List.cons_append, List.append_assoc] at dropped trimmed ⊢
      rw [dropped, trimmed]
      simp [Nat.add_assoc]
  | blockComment stars indent back stars' allStars indentBlank backBlank allStars' =>
      have opened :
          Text.afterPrefix? ['/', '*']
              ('/' :: '*' :: (stars ++ indent) ++ content ++ (back ++ (stars' ++ ['*', '/']))) =
            some (stars ++ (indent ++ content ++ back) ++ stars' ++ ['*', '/']) := by
        simp [Text.afterPrefix?]
      have closed :
          Text.beforeSuffix? ['*', '/']
              (stars ++ (indent ++ content ++ back) ++ stars' ++ ['*', '/']) =
            some (stars ++ (indent ++ content ++ back) ++ stars') :=
        Text.beforeSuffix?_eq_some_iff.2 rfl
      have leading :
          (⟨offset + 2, stars ++ (indent ++ content ++ (back ++ stars'))⟩ : Piece).dropLeading '*' =
            ⟨offset + 2 + Text.byteSize stars, indent ++ content ++ (back ++ stars')⟩ :=
        Piece.dropLeading_append (offset + 2) allStars
          (head?_append_ne (by decide) indentBlank solid.nonempty (solid.blockFirst rfl) _)
      have trailing :
          (⟨offset + 2 + Text.byteSize stars,
              indent ++ content ++ back ++ stars'⟩ : Piece).dropTrailing '*' =
            ⟨offset + 2 + Text.byteSize stars, indent ++ content ++ back⟩ :=
        Piece.dropTrailing_append (offset + 2 + Text.byteSize stars) allStars'
          (getLast?_append_ne (by decide) backBlank solid.nonempty (solid.blockLast rfl) indent)
      have trimmed :=
        Piece.trim_append_append (offset + 2 + Text.byteSize stars) indentBlank solid.nonempty
          solid.starts solid.ends backBlank
      have slash : '/'.utf8Size = 1 := rfl
      have star : '*'.utf8Size = 1 := rfl
      simp only [Candidate.inner?, commentInner?, opened, Option.bind_eq_bind, Option.bind_some,
        closed]
      simp only [List.append_assoc] at leading trailing trimmed ⊢
      rw [leading, trailing, Option.map_some, trimmed]
      simp only [Text.byteSize_cons, Text.byteSize_append, slash, star, Option.some.injEq,
        Piece.mk.injEq, and_true]
      omega
  | directive directive gap indent back gapChars nonempty indentBlank backBlank oneLine =>
      have reads := read?_directive_frame gapChars nonempty indentBlank oneLine solid
      have trimmed :=
        Piece.trim_append_append
          (offset + Text.byteSize ('#' :: (gap ++ directive.keyword))) indentBlank
          solid.nonempty solid.starts solid.ends backBlank
      have behind :
          Candidate.contentOf?.pieceBehind
              ⟨offset, '#' :: (gap ++ (directive.keyword ++ indent)) ++ content ++ back⟩
              (indent ++ content ++ back) =
            ⟨offset + Text.byteSize ('#' :: (gap ++ directive.keyword)),
              indent ++ content ++ back⟩ := by
        simp only [Candidate.contentOf?.pieceBehind, List.cons_append, Text.byteSize_cons,
          Text.byteSize_append, Piece.mk.injEq, and_true]
        omega
      have innerEq :
          Candidate.inner? directive.triviaKind
              ⟨offset, '#' :: (gap ++ (directive.keyword ++ indent)) ++ content ++ back⟩ =
            some ⟨offset + Text.byteSize ('#' :: (gap ++ directive.keyword)) +
              Text.byteSize indent, content⟩ := by
        cases directive <;>
          simp only [Candidate.inner?, Directive.triviaKind, reads, Option.map_some, behind,
            trimmed]
      rw [innerEq]
      simp [Nat.add_assoc]

private theorem newline_notMem_frame
    {kind : TriviaKind}
    {front back content : Text}
    (frame : Frame kind front back)
    (notBlock : kind ≠ .blockComment)
    (contentLine : '\n' ∉ content) :
    '\n' ∉ front ++ content ++ back := by
  cases frame with
  | lineComment slashes indent _ allSlashes _ _ oneLine =>
      have slashesLine : '\n' ∉ slashes := by
        intro member
        have isSlash := allSlashes '\n' member
        simp at isSlash
      simp only [List.mem_append, not_or] at oneLine
      simp [slashesLine, contentLine, oneLine]
  | blockComment => exact absurd rfl notBlock
  | directive directive gap indent _ gapChars _ _ _ oneLine =>
      exact newline_notMem_directive gapChars oneLine contentLine

/-- A solid content in a frame makes a lexeme where the line ends behind it, or
the comment behind it alone closes. -/
theorem Frame.shape
    {kind : TriviaKind}
    {front back content rest : Text}
    {lineBlank : Bool}
    (frame : Frame kind front back)
    (solid : IsSolid kind content)
    (blank : kind = .regionDirective ∨ kind = .endRegionDirective → lineBlank = true)
    (lineEnds : kind ≠ .blockComment →
      Text.firstLine rest = [] ∧ (front ++ content ++ back).getLast? ≠ some '\r' ∨
        Text.firstLine rest = ['\r'])
    (closes : kind = .blockComment → ∀ inner,
      front ++ content ++ back = '/' :: '*' :: (inner ++ ['*', '/']) →
        Lexeme.NoClose (inner ++ ['*'])) :
    Lexeme.Shape lineBlank rest ⟨.trivia kind, front ++ content ++ back⟩ := by
  have endsLine : kind ≠ .blockComment →
      Text.withoutReturn (Text.firstLine (front ++ content ++ back ++ rest)) =
        front ++ content ++ back := by
    intro notBlock
    exact
      Text.withoutReturn_firstLine_append_iff.2
        ⟨newline_notMem_frame frame notBlock (solid.oneLine notBlock), lineEnds notBlock⟩
  cases frame with
  | lineComment slashes indent _ allSlashes indentBlank backBlank oneLine =>
      have ends := endsLine (by decide)
      simp only [List.cons_append, List.append_assoc] at ends ⊢
      exact .lineComment _ (by simpa using ends)
  | blockComment stars indent back' stars' _ _ _ _ =>
      have textEq :
          '/' :: '*' :: (stars ++ indent) ++ content ++ (back' ++ (stars' ++ ['*', '/'])) =
            '/' :: '*' :: (stars ++ indent ++ content ++ back' ++ stars' ++ ['*', '/']) := by
        simp
      rw [textEq]
      exact .blockComment _ (closes rfl _ textEq)
  | directive directive gap indent _ gapChars nonempty indentBlank backBlank oneLine =>
      have notBlock : directive.triviaKind ≠ .blockComment := by
        cases directive <;> simp [Directive.triviaKind]
      have isDirective :
          directive.triviaKind = .regionDirective ∨
            directive.triviaKind = .endRegionDirective := by
        cases directive <;> simp [Directive.triviaKind]
      have ends := endsLine notBlock
      have reads := read?_directive_frame gapChars nonempty indentBlank oneLine solid
      simp only [List.cons_append, List.append_assoc] at ends reads ⊢
      exact .directive directive _ _ (blank isDirective) reads (by simpa using ends)

theorem visible_inner?
    {kind : TriviaKind}
    {whole content : Piece}
    (found : Candidate.inner? kind whole = some content) :
    Text.StartsVisible content.text ∧ Text.EndsVisible content.text := by
  obtain ⟨piece, rfl⟩ : ∃ piece : Piece, piece.trim = content := by
    cases kind with
    | lineComment =>
        exact ⟨_, Option.some.inj found⟩
    | blockComment =>
        obtain ⟨piece, _, trimmed⟩ := Option.map_eq_some_iff.1 found
        exact ⟨piece, trimmed⟩
    | regionDirective =>
        obtain ⟨pair, _, trimmed⟩ := Option.map_eq_some_iff.1 found
        exact ⟨_, trimmed⟩
    | endRegionDirective =>
        obtain ⟨pair, _, trimmed⟩ := Option.map_eq_some_iff.1 found
        exact ⟨_, trimmed⟩
  rw [Piece.text_trim]
  exact ⟨Text.startsVisible_trim _, Text.endsVisible_trim _⟩

private theorem allBlank_append_space {indent : Text} (blank : Text.AllBlank indent) :
    Text.AllBlank (indent ++ [' ']) := by
  intro c member
  rcases List.mem_append.1 member with inIndent | isSpace
  · exact blank c inIndent
  · obtain rfl := List.mem_singleton.1 isSpace
    decide

/-- Whether a text is a content in a frame. If there is no content, then there is
a frame for one when a space comes first. -/
def IsFramed (kind : TriviaKind) (offset : Nat) (text : Text) (content : Piece) : Prop :=
  ∃ front back,
    text = front ++ content.text ++ back ∧
      content.offset = offset + Text.byteSize front ∧
      (content.text ≠ [] → Frame kind front back) ∧
      (content.text = [] → Frame kind (front ++ [' ']) back)

theorem isFramed_lineComment
    {tail : Text}
    {offset : Nat}
    {content : Piece}
    (oneLine : '\n' ∉ '/' :: '/' :: tail)
    (found : Candidate.inner? .lineComment ⟨offset, '/' :: '/' :: tail⟩ = some content) :
    IsFramed .lineComment offset ('/' :: '/' :: tail) content := by
  have tailEq := List.takeWhile_append_dropWhile (p := (· = '/')) (l := tail)
  have allSlashes : ∀ c ∈ tail.takeWhile (· = '/'), c = '/' := by
    intro c member
    simpa using List.all_eq_true.1 List.all_takeWhile c member
  have dropped :
      (⟨offset, '/' :: '/' :: tail⟩ : Piece).dropLeading '/' =
        ⟨offset + Text.byteSize ('/' :: '/' :: tail.takeWhile (· = '/')),
          tail.dropWhile (· = '/')⟩ := by
    simp [Piece.dropLeading]
  simp only [Candidate.inner?, commentInner?, Option.map_some, dropped,
    Option.some.injEq] at found
  obtain ⟨indent, back, innerEq, indentBlank, backBlank, offsetEq⟩ :=
    Piece.exists_trim_frame
      ⟨offset + Text.byteSize ('/' :: '/' :: tail.takeWhile (· = '/')),
        tail.dropWhile (· = '/')⟩
  rw [found] at innerEq offsetEq
  simp only at innerEq
  rw [← tailEq, innerEq] at oneLine
  simp only [List.mem_cons, List.mem_append, not_or] at oneLine
  obtain ⟨_, _, _, ⟨indentLine, _⟩, backLine⟩ := oneLine
  refine
    ⟨'/' :: '/' :: (tail.takeWhile (· = '/') ++ indent), back, ?_, ?_, fun _ => ?_,
      fun _ => ?_⟩
  · simp only [List.cons_append, List.append_assoc] at innerEq ⊢
    rw [← innerEq, tailEq]
  · rw [offsetEq]
    simp [Nat.add_assoc]
  · exact
      .lineComment _ indent back allSlashes indentBlank backBlank
        (by simp [indentLine, backLine])
  · have frame :=
      Frame.lineComment _ (indent ++ [' ']) back allSlashes
        (allBlank_append_space indentBlank) backBlank (by simp [indentLine, backLine])
    simpa using frame

theorem isFramed_blockComment
    {inner : Text}
    {offset : Nat}
    {content : Piece}
    (found :
      Candidate.inner? .blockComment ⟨offset, '/' :: '*' :: (inner ++ ['*', '/'])⟩ =
        some content) :
    IsFramed .blockComment offset ('/' :: '*' :: (inner ++ ['*', '/'])) content := by
  have opened :
      Text.afterPrefix? ['/', '*'] ('/' :: '*' :: (inner ++ ['*', '/'])) =
        some (inner ++ ['*', '/']) := by
    simp [Text.afterPrefix?]
  have closed : Text.beforeSuffix? ['*', '/'] (inner ++ ['*', '/']) = some inner :=
    Text.beforeSuffix?_eq_some_iff.2 rfl
  simp only [Candidate.inner?, commentInner?, opened, Option.bind_eq_bind, Option.bind_some,
    closed, Option.map_some, Option.some.injEq] at found
  obtain ⟨stars, starsEq, allStars, starsOffset⟩ :=
    Piece.exists_dropLeading_frame '*' ⟨offset + 2, inner⟩
  obtain ⟨stars', starsEq', allStars', starsOffset'⟩ :=
    Piece.exists_dropTrailing_frame '*' ((⟨offset + 2, inner⟩ : Piece).dropLeading '*')
  obtain ⟨indent, back, innerEq, indentBlank, backBlank, offsetEq⟩ :=
    Piece.exists_trim_frame
      (((⟨offset + 2, inner⟩ : Piece).dropLeading '*').dropTrailing '*')
  rw [found] at innerEq offsetEq
  have wholeEq : inner = stars ++ (indent ++ content.text ++ back ++ stars') := by
    rw [← innerEq, ← starsEq']
    exact starsEq
  have slash : '/'.utf8Size = 1 := rfl
  have star : '*'.utf8Size = 1 := rfl
  refine
    ⟨'/' :: '*' :: (stars ++ indent), back ++ (stars' ++ ['*', '/']), ?_, ?_, fun _ => ?_,
      fun _ => ?_⟩
  · rw [wholeEq]
    simp
  · rw [offsetEq, starsOffset', starsOffset]
    simp only [Text.byteSize_cons, Text.byteSize_append, slash, star]
    omega
  · exact .blockComment stars indent back stars' allStars indentBlank backBlank allStars'
  · have frame :=
      Frame.blockComment stars (indent ++ [' ']) back stars' allStars
        (allBlank_append_space indentBlank) backBlank allStars'
    simpa using frame

private theorem isFramed_directive
    {directive : Directive}
    {after tail : Text}
    {offset : Nat}
    {content : Piece}
    (reads : Directive.read? ('#' :: tail) = some (directive, after))
    (found : Candidate.inner? directive.triviaKind ⟨offset, '#' :: tail⟩ = some content) :
    IsFramed directive.triviaKind offset ('#' :: tail) content := by
  obtain ⟨before, gap, lineEq, beforeBlank, gapChars, ended, oneLine⟩ :=
    Directive.read?_eq_some_iff.1 reads
  obtain rfl : before = [] := by
    cases before with
    | nil => rfl
    | cons c before =>
        obtain ⟨rfl, _⟩ := List.cons.inj lineEq
        exact absurd (beforeBlank '#' List.mem_cons_self) (by decide)
  have innerEq :
      Candidate.inner? directive.triviaKind ⟨offset, '#' :: tail⟩ =
        some (Candidate.contentOf?.pieceBehind ⟨offset, '#' :: tail⟩ after).trim := by
    cases directive <;>
      simp only [Candidate.inner?, Directive.triviaKind, reads, Option.map_some]
  have found := Option.some.inj (innerEq.symm.trans found)
  have behind :
      Candidate.contentOf?.pieceBehind ⟨offset, '#' :: tail⟩ after =
        ⟨offset + Text.byteSize ('#' :: (gap ++ directive.keyword)), after⟩ := by
    rw [lineEq]
    simp only [Candidate.contentOf?.pieceBehind, List.nil_append, Text.byteSize_cons,
      Text.byteSize_append, Piece.mk.injEq, and_true]
    omega
  rw [behind] at found
  obtain ⟨indent, back, afterEq, indentBlank, backBlank, offsetEq⟩ :=
    Piece.exists_trim_frame
      ⟨offset + Text.byteSize ('#' :: (gap ++ directive.keyword)), after⟩
  have visible := Text.startsVisible_trim after
  rw [found] at afterEq offsetEq
  simp only at afterEq
  rw [lineEq, afterEq] at oneLine
  simp only [List.nil_append, List.mem_cons, List.mem_append, not_or] at oneLine
  obtain ⟨_, _, _, ⟨indentLine, _⟩, backLine⟩ := oneLine
  refine
    ⟨'#' :: (gap ++ (directive.keyword ++ indent)), back, ?_, ?_, fun nonempty => ?_,
      fun _ => ?_⟩
  · rw [lineEq, afterEq]
    simp
  · rw [offsetEq]
    simp [Nat.add_assoc]
  · refine
      .directive directive gap indent back gapChars ?_ indentBlank backBlank
        (by simp [indentLine, backLine])
    rintro rfl
    obtain ⟨c, contentRest, contentEq⟩ := List.exists_cons_of_ne_nil nonempty
    have textEq : content.text = Text.trim after := by
      rw [← found, Piece.text_trim]
    have blankHead : isBlank c = true := by
      rw [afterEq, List.nil_append, contentEq] at ended
      exact ended
    have visibleHead : isBlank c = false := by
      refine visible c ?_
      rw [← textEq, contentEq]
      rfl
    rw [blankHead] at visibleHead
    exact absurd visibleHead (by decide)
  · have frame :=
      Frame.directive directive gap (indent ++ [' ']) back gapChars (by simp)
        (allBlank_append_space indentBlank) backBlank (by simp [indentLine, backLine])
    simpa using frame

/-- A lexeme that is trivia is its content in a frame. -/
theorem Lexeme.Shape.isFramed
    {lineBlank : Bool}
    {rest : Text}
    {lexeme : Lexeme}
    {kind : TriviaKind}
    {offset : Nat}
    {content : Piece}
    (shape : Lexeme.Shape lineBlank rest lexeme)
    (isTrivia : lexeme.kind = .trivia kind)
    (found : Candidate.inner? kind ⟨offset, lexeme.text⟩ = some content) :
    IsFramed kind offset lexeme.text content := by
  cases shape with
  | lineComment tail ends =>
      obtain rfl : TriviaKind.lineComment = kind := by simpa using isTrivia
      exact isFramed_lineComment (Text.withoutReturn_firstLine_append_iff.1 ends).1 found
  | blockComment inner noClose =>
      obtain rfl : TriviaKind.blockComment = kind := by simpa using isTrivia
      exact isFramed_blockComment found
  | directive directive after tail blank reads ends =>
      obtain rfl : directive.triviaKind = kind := by simpa using isTrivia
      exact isFramed_directive reads found
  | openComment => simp at isTrivia
  | string => simp at isTrivia
  | character => simp at isTrivia
  | verbatim => simp at isTrivia
  | plain => simp at isTrivia

end MacroRegions

import MacroRegions.Document.Parse
import MacroRegions.Proofs.Marker.Framing

/-!
Trivia that parsing accepts.

A list of trivia is accepted exactly if it lies in the text from front to back, each
piece with text of the shape of its kind. The trivia which lexing finds is such a
list, so handing it to the parser is to let the parser find it.
-/

namespace MacroRegions

inductive TriviaKind.Looks : TriviaKind → Text → Prop where
  | lineComment (tail : Text) (oneLine : '\n' ∉ tail) :
      Looks .lineComment ('/' :: '/' :: tail)
  | blockComment (inner : Text) :
      Looks .blockComment ('/' :: '*' :: (inner ++ ['*', '/']))
  | directive
      (directive : Directive)
      (indent gap after : Text)
      (indentBlank : Text.AllBlank indent)
      (gapBlank : ∀ c ∈ gap, c = ' ' ∨ c = '\t')
      (ended : Text.endsWord after = true)
      (oneLine : '\n' ∉ indent ++ '#' :: (gap ++ (directive.keyword ++ after))) :
      Looks directive.triviaKind (indent ++ '#' :: (gap ++ (directive.keyword ++ after)))

namespace TriviaKind

variable {kind : TriviaKind} {piece : Text}

private theorem looks_lineComment
    {tail : Text}
    (opened : Text.afterPrefix? ['/', '/'] piece = some tail)
    (oneLine : '\n' ∉ piece) :
    lineComment.Looks piece := by
  obtain rfl := Text.afterPrefix?_eq_some_iff.1 opened
  exact .lineComment tail (by simpa using oneLine)

/-- The two delimiters of a block comment do not share their star. -/
theorem looks_blockComment
    {tail front : Text}
    (size : 4 ≤ Text.byteSize piece)
    (opened : Text.afterPrefix? ['/', '*'] piece = some tail)
    (closed : Text.beforeSuffix? ['*', '/'] piece = some front) :
    blockComment.Looks piece := by
  have startsSo := Text.afterPrefix?_eq_some_iff.1 opened
  obtain rfl := Text.beforeSuffix?_eq_some_iff.1 closed
  match front with
  | [] => simp at startsSo
  | [c] =>
      obtain rfl : c = '/' := by simpa using congrArg List.head? startsSo
      exact absurd size (by decide)
  | c :: d :: inner =>
      obtain ⟨rfl, rfl, _⟩ : c = '/' ∧ d = '*' ∧ inner ++ ['*', '/'] = tail := by
        simpa using startsSo
      exact .blockComment inner

private theorem looks_directive
    {directive : Directive}
    {after : Text}
    (reads : Directive.read? piece = some (directive, after)) :
    directive.triviaKind.Looks piece := by
  obtain ⟨indent, gap, rfl, indentBlank, gapBlank, ended, oneLine⟩ :=
    Directive.read?_eq_some_iff.1 reads
  exact .directive directive indent gap after indentBlank gapBlank ended oneLine

/-- The checker of shapes accepts what looks like its kind. -/
theorem fits_iff_looks : kind.fits piece = true ↔ kind.Looks piece := by
  constructor
  · intro fitting
    cases kind with
    | lineComment =>
        simp only [fits, Bool.and_eq_true, decide_eq_true_eq, Option.isSome_iff_exists] at fitting
        obtain ⟨⟨tail, opened⟩, oneLine⟩ := fitting
        exact looks_lineComment opened oneLine
    | blockComment =>
        simp only [fits, Bool.and_eq_true, decide_eq_true_eq, Option.isSome_iff_exists] at fitting
        obtain ⟨⟨size, tail, opened⟩, front, closed⟩ := fitting
        exact looks_blockComment size opened closed
    | regionDirective =>
        obtain ⟨⟨directive, after⟩, reads, isOpening⟩ := (Option.any_eq_true _ _).1 fitting
        obtain rfl : directive = .opening := by simpa using isOpening
        exact looks_directive reads
    | endRegionDirective =>
        obtain ⟨⟨directive, after⟩, reads, isClosing⟩ := (Option.any_eq_true _ _).1 fitting
        obtain rfl : directive = .closing := by simpa using isClosing
        exact looks_directive reads
  · intro looks
    cases looks with
    | lineComment tail oneLine =>
        simpa [fits, Text.afterPrefix?] using oneLine
    | blockComment inner => exact fits_blockComment inner
    | directive directive indent gap after indentBlank gapBlank ended oneLine =>
        have reads := Directive.read?_eq_some_iff.2
          ⟨indent, gap, rfl, indentBlank, gapBlank, ended, oneLine⟩
        cases directive <;> simp [fits, Directive.triviaKind, reads]

end TriviaKind

namespace Trivia

/-- Trivia lies in a text from front to back, each piece with text of its
kind between two cuts of the text. -/
structure LiesIn (text : Text) (trivia : List Trivia) : Prop where
  looks : ∀ item ∈ trivia,
    ∃ front piece back,
      text = front ++ piece ++ back ∧
        item.span = ⟨Text.byteSize front, Text.byteSize front + Text.byteSize piece⟩ ∧
        item.kind.Looks piece
  ordered : trivia.Pairwise fun first second => first.span.stop ≤ second.span.start

theorem holds_iff {text : Text} {item : Trivia} :
    item.Holds text ↔
      ∃ front piece back,
        text = front ++ piece ++ back ∧
          item.span = ⟨Text.byteSize front, Text.byteSize front + Text.byteSize piece⟩ ∧
          item.kind.Looks piece := by
  constructor
  · intro holds
    obtain ⟨piece, sliced, fitting⟩ := holds
    obtain ⟨front, back, textEq, startEq, stopEq⟩ := Text.slice?_eq_some_iff.1 sliced
    refine ⟨front, piece, back, textEq, ?_, TriviaKind.fits_iff_looks.1 fitting⟩
    rw [startEq, stopEq]
  · intro found
    obtain ⟨front, piece, back, textEq, spanEq, looks⟩ := found
    refine ⟨piece, ?_, TriviaKind.fits_iff_looks.2 looks⟩
    rw [Text.slice?_eq_some_iff, spanEq]
    exact ⟨front, back, textEq, rfl, rfl⟩

/-- Trivia has no fault exactly if it lies in the text. -/
theorem firstFault?_eq_none_iff_liesIn {text : Text} {trivia : List Trivia} :
    firstFault? text trivia = none ↔ LiesIn text trivia := by
  rw [firstFault?_eq_none_iff]
  constructor
  · intro accepted
    exact ⟨fun item member => holds_iff.1 (accepted.1 item member), accepted.2⟩
  · intro lies
    exact ⟨fun item member => holds_iff.2 (lies.looks item member), lies.ordered⟩

end Trivia

/-- A document does not depend on whether its trivia is found by lexing or
handed over. -/
theorem Document.parseWithTrivia_extract
    (filePath : Text)
    (source : Source)
    (options : ParseOptions) :
    let trivia := Trivia.extract source.text
    Trivia.firstFault? source.text trivia = none ∧
      Trivia.LiesIn source.text trivia ∧
      parseWithTrivia filePath source trivia options = .ok (parse filePath source options) := by
  intro trivia
  have accepted : Trivia.firstFault? source.text trivia = none :=
    Trivia.firstFault?_extract source.text
  refine ⟨accepted, Trivia.firstFault?_eq_none_iff_liesIn.1 accepted, ?_⟩
  rw [parseWithTrivia, accepted]
  rfl

end MacroRegions

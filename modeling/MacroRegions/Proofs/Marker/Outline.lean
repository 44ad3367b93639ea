import MacroRegions.Proofs.Marker.Rewriting

/-!
Outlines: what an edit to a location tag leaves of markers, blocks and problems.

The outline of a marker has its lines but no columns, offsets or spans. A comment or a
directive that stands elsewhere, on the same lines, is a marker of the same outline.
-/

namespace MacroRegions

def Point.outline (point : Point) : Point :=
  ⟨point.line, 0, 0⟩

def Position.outline (position : Position) : Position :=
  ⟨position.start.outline, position.stop.outline⟩

namespace Marker

/-- A marker without what depends on the columns that it is in. -/
def outline (marker : Marker) : Marker :=
  { marker with
    position := marker.position.outline
    tagSpan := none
    insertOffset := 0
    malformedTag := false }

theorem outline_eq_iff {first second : Marker} :
    first.outline = second.outline ↔
      first.keyword = second.keyword ∧
        first.form = second.form ∧
        first.tag = second.tag ∧
        first.body = second.body ∧
        first.position.outline = second.position.outline := by
  simp [outline]

theorem line_eq_of_outline_eq
    {first second : Marker}
    (outlineEq : first.outline = second.outline) :
    first.line = second.line := by
  obtain ⟨_, _, _, _, positionEq⟩ := outline_eq_iff.1 outlineEq
  exact congrArg (·.start.line) positionEq

theorem IsRetagged.outline_eq
    {before found : Marker}
    {tag : Option LocationTag}
    (retagged : before.IsRetagged found tag)
    (positionEq : found.position.outline = before.position.outline) :
    found.outline = (before.withTag tag).outline :=
  outline_eq_iff.2
    ⟨retagged.keyword, retagged.form, retagged.tag, retagged.body, positionEq⟩

end Marker

def Block.outline (block : Block) : Block :=
  ⟨block.start.map Marker.outline, block.stop.map Marker.outline, block.error⟩

def ParseProblem.outline (problem : ParseProblem) : ParseProblem :=
  { problem with position := problem.position.outline }

def PairingItem.mapMarker (f : Marker → Marker) : PairingItem → PairingItem
  | plainRegion => plainRegion
  | marker found => marker (f found)

private theorem Payload.ofPiece_congr (offset offset' : Nat) (text : Text) :
    (Payload.ofPiece ⟨offset', text⟩).tag = (Payload.ofPiece ⟨offset, text⟩).tag ∧
      (Payload.ofPiece ⟨offset', text⟩).remainder =
        (Payload.ofPiece ⟨offset, text⟩).remainder := by
  cases found : LocationTag.parse? (Text.splitLastWord (Text.trimEnd text)).2 with
  | none => simp [Payload.ofPiece, found]
  | some tag => simp [Payload.ofPiece, found]

private theorem Candidate.text_inner?_congr
    (kind : TriviaKind)
    (offset offset' : Nat)
    (text : Text) :
    (inner? kind ⟨offset', text⟩).map Piece.text =
      (inner? kind ⟨offset, text⟩).map Piece.text := by
  cases kind with
  | lineComment => simp [inner?, commentInner?, Piece.text_trim, Piece.dropLeading]
  | blockComment =>
      cases opened : Text.afterPrefix? ['/', '*'] text with
      | none => simp [inner?, commentInner?, opened]
      | some rest =>
          cases closed : Text.beforeSuffix? ['*', '/'] rest with
          | none => simp [inner?, commentInner?, opened, closed]
          | some inner =>
              simp [inner?, commentInner?, opened, closed, Piece.text_trim, Piece.dropLeading,
                Piece.dropTrailing]
  | regionDirective =>
      simp [inner?, Piece.text_trim, contentOf?.pieceBehind, Function.comp_def]
  | endRegionDirective =>
      simp [inner?, Piece.text_trim, contentOf?.pieceBehind, Function.comp_def]

private theorem Marker.outline_ofContent_congr
    {keyword : MarkerKeyword}
    {word : Text}
    {kind : TriviaKind}
    {position position' : Position}
    {content content' : Piece}
    (positionEq : position'.outline = position.outline)
    (textEq : content'.text = content.text) :
    (Marker.ofContent keyword word kind position' content').outline =
      (Marker.ofContent keyword word kind position content).outline := by
  refine Marker.outline_eq_iff.2 ⟨rfl, rfl, ?_, ?_, positionEq⟩
  · simp only [Marker.ofContent, textEq]
    exact (Payload.ofPiece_congr _ _ _).1
  · simp only [Marker.ofContent, textEq]
    rw [(Payload.ofPiece_congr _ _ _).2]

/-- A comment or a directive is the same for pairing wherever it stands. -/
theorem PairingItem.ofPiece?_outline_congr
    {kind : TriviaKind}
    {position position' : Position}
    (positionEq : position'.outline = position.outline)
    (offset offset' : Nat)
    (text : Text) :
    (ofPiece? kind position' ⟨offset', text⟩).map (mapMarker Marker.outline) =
      (ofPiece? kind position ⟨offset, text⟩).map (mapMarker Marker.outline) := by
  have textEq := Candidate.text_inner?_congr kind offset offset' text
  cases found : Candidate.inner? kind ⟨offset, text⟩ with
  | none =>
      rw [found, Option.map_none, Option.map_eq_none_iff] at textEq
      simp [ofPiece?, Candidate.contentOf?_eq_bind, found, textEq]
  | some content =>
      rw [found, Option.map_some] at textEq
      obtain ⟨content', found', contentEq⟩ := Option.map_eq_some_iff.1 textEq
      cases kindEq : Candidate.kindOf? kind content.text with
      | none => simp [ofPiece?, Candidate.contentOf?_eq_bind, found, found', contentEq, kindEq]
      | some candidateKind =>
          cases keywordEq : candidateKind.keyword? with
          | none =>
              cases candidateKind <;> simp [CandidateKind.keyword?] at keywordEq
              simp [ofPiece?, Candidate.contentOf?_eq_bind, found, found', contentEq, kindEq,
                ofCandidate?]
          | some pair =>
              obtain ⟨keyword, word⟩ := pair
              have isMarker :
                  ofPiece? kind position ⟨offset, text⟩ =
                    some (marker (Marker.ofContent keyword word kind position content)) :=
                ofPiece?_eq_marker_iff.2
                  ⟨content, candidateKind, keyword, word, found, kindEq, keywordEq, rfl⟩
              have isMarker' :
                  ofPiece? kind position' ⟨offset', text⟩ =
                    some (marker (Marker.ofContent keyword word kind position' content')) :=
                ofPiece?_eq_marker_iff.2
                  ⟨content', candidateKind, keyword, word, found', by rw [contentEq, kindEq],
                    keywordEq, rfl⟩
              rw [isMarker, isMarker', Option.map_some, Option.map_some, mapMarker, mapMarker,
                Marker.outline_ofContent_congr positionEq contentEq]

end MacroRegions

import MacroRegions.Proofs.Marker.Rewriting
import MacroRegions.Trivia.Validation

/-!
Where location tags are written.

A host may supply a directive with blanks before it or a block comment that closes
early, so its trivia need not be a lexeme. Every other location tag of a marker is
written within the marker's trivia all the same, behind at least one character of it.
-/

namespace MacroRegions

/-- A content stands in a text, behind something else. -/
def Piece.IsBehind (content whole : Piece) : Prop :=
  ∃ front back,
    whole.text = front ++ content.text ++ back ∧
      content.offset = whole.offset + Text.byteSize front ∧
      front ≠ []

theorem IsFramed.isBehind
    {kind : TriviaKind}
    {offset : Nat}
    {text : Text}
    {content : Piece}
    (framed : IsFramed kind offset text content) :
    content.IsBehind ⟨offset, text⟩ := by
  obtain ⟨front, back, textEq, offsetEq, frame, emptyFrame⟩ := framed
  exact ⟨front, back, textEq, offsetEq, front_ne_nil frame emptyFrame⟩

namespace Candidate

private theorem isBehind_of_read?
    {whole content : Piece}
    (found :
      (Directive.read? whole.text).map
          (fun (_, after) => (contentOf?.pieceBehind whole after).trim) =
        some content) :
    content.IsBehind whole := by
  obtain ⟨⟨directive, after⟩, reads, trimmed⟩ := Option.map_eq_some_iff.1 found
  obtain ⟨before, gap, textEq, _⟩ := Directive.read?_eq_some_iff.1 reads
  obtain ⟨indent, back, afterEq, _, _, offsetEq⟩ :=
    Piece.exists_trim_frame (contentOf?.pieceBehind whole after)
  simp only at trimmed
  rw [trimmed] at afterEq offsetEq
  simp only [contentOf?.pieceBehind] at afterEq offsetEq
  have textEq' :
      whole.text = before ++ '#' :: (gap ++ directive.keyword) ++ after := by
    simp [textEq]
  refine ⟨before ++ '#' :: (gap ++ directive.keyword) ++ indent, back, ?_, ?_, by simp⟩
  · rw [textEq', afterEq]
    simp
  · rw [offsetEq, textEq', Text.byteSize_append, Text.byteSize_append _ indent]
    omega

/-- The content of trivia without a fault stands behind a part of it. -/
theorem isBehind_of_fits
    {kind : TriviaKind}
    {whole content : Piece}
    (fitting : kind.fits whole.text = true)
    (found : inner? kind whole = some content) :
    content.IsBehind whole := by
  obtain ⟨offset, text⟩ := whole
  cases kind with
  | lineComment =>
      obtain ⟨opens, oneLine⟩ := Bool.and_eq_true_iff.1 fitting
      obtain ⟨tail, opened⟩ := Option.isSome_iff_exists.1 opens
      obtain rfl := Text.afterPrefix?_eq_some_iff.1 opened
      exact (isFramed_lineComment (of_decide_eq_true oneLine) found).isBehind
  | blockComment =>
      obtain ⟨piece, innerEq, _⟩ := Option.map_eq_some_iff.1 found
      obtain ⟨opened, openedEq, closedEq⟩ := Option.bind_eq_some_iff.1 innerEq
      obtain ⟨inner, closed, _⟩ := Option.bind_eq_some_iff.1 closedEq
      obtain rfl := Text.afterPrefix?_eq_some_iff.1 openedEq
      obtain rfl := Text.beforeSuffix?_eq_some_iff.1 closed
      exact (isFramed_blockComment found).isBehind
  | regionDirective => exact isBehind_of_read? found
  | endRegionDirective => exact isBehind_of_read? found

end Candidate

/-- Another location tag for a marker is written within the marker's trivia. -/
theorem Marker.exists_edit
    {kind : TriviaKind}
    {position : Position}
    {whole : Piece}
    {found : Marker}
    {tag : LocationTag}
    (fitting : kind.fits whole.text = true)
    (isMarker : PairingItem.ofPiece? kind position whole = some (.marker found))
    (different : found.tag ≠ some tag) :
    ∃ front old back new,
      whole.text = front ++ old ++ back ∧
        front ≠ [] ∧
        found.edit? (found.withTag (some tag)) =
          some
            ⟨⟨whole.offset + Text.byteSize front,
              whole.offset + Text.byteSize front + Text.byteSize old⟩, new⟩ := by
  obtain
    ⟨⟨contentOffset, content⟩, candidateKind, keyword, word, innerEq, kindEq, keywordEq, rfl⟩ :=
    PairingItem.ofPiece?_eq_marker_iff.1 isMarker
  obtain ⟨front, back, textEq, offsetEq, nonempty⟩ := Candidate.isBehind_of_fits fitting innerEq
  have ends := (visible_inner? innerEq).2
  obtain ⟨lead, behind, leads, contentEq, _⟩ := Candidate.exists_leads kindEq keywordEq
  simp only at textEq offsetEq ends contentEq
  subst contentEq
  obtain ⟨body, old, gap, slot⟩ := exists_tagSlot (Text.EndsVisible.of_append ends)
  refine ⟨front ++ lead ++ body, old, back, gap ++ tag.render, ?_, by simp [nonempty], ?_⟩
  · rw [textEq, slot.rest_eq]
    simp
  · rw [edit?_ofContent leads.length_eq leads.byteSize_eq slot different, offsetEq]
    simp [Nat.add_assoc]

end MacroRegions

import MacroRegions.Proofs.Marker.Outline
import MacroRegions.Proofs.Trivia.Concatenation
import MacroRegions.Proofs.Update.Rewriting

/-!
Markers of a text that stands behind another.

What a comment or a directive says does not depend on where it stands. Trivia of both
texts makes the items of the one and, as far further on as the first text is long,
those of the other.
-/

namespace MacroRegions

def Piece.behind (front : Text) (piece : Piece) : Piece :=
  ⟨piece.offset + Text.byteSize front, piece.text⟩

def Marker.behind (front : Text) (marker : Marker) : Marker :=
  { marker with
    position := marker.position.behind front
    tagSpan := marker.tagSpan.map (Span.behind front)
    insertOffset := marker.insertOffset + Text.byteSize front }

variable (front : Text)

namespace Piece

private theorem trim_behind (piece : Piece) :
    (piece.behind front).trim = piece.trim.behind front := by
  obtain ⟨offset, text⟩ := piece
  simp only [trim, behind]
  split
  · rfl
  · simp [Nat.add_right_comm]

private theorem dropLeading_behind (c : Char) (piece : Piece) :
    (piece.behind front).dropLeading c = (piece.dropLeading c).behind front := by
  simp [dropLeading, behind, Nat.add_right_comm]

private theorem dropTrailing_behind (c : Char) (piece : Piece) :
    (piece.behind front).dropTrailing c = (piece.dropTrailing c).behind front :=
  rfl

end Piece

private theorem commentInner?_behind (kind : TriviaKind) (comment : Piece) :
    commentInner? kind (comment.behind front) =
      (commentInner? kind comment).map (Piece.behind front) := by
  cases kind with
  | lineComment => exact congrArg some (Piece.dropLeading_behind front '/' comment)
  | blockComment =>
      cases opened : Text.afterPrefix? ['/', '*'] comment.text with
      | none => simp [commentInner?, Piece.behind, opened]
      | some rest =>
          cases closed : Text.beforeSuffix? ['*', '/'] rest with
          | none => simp [commentInner?, Piece.behind, opened, closed]
          | some inner =>
              have opened' :
                  Text.afterPrefix? ['/', '*'] (comment.behind front).text = some rest :=
                opened
              have innerEq :
                  (⟨(comment.behind front).offset + 2, inner⟩ : Piece) =
                    Piece.behind front ⟨comment.offset + 2, inner⟩ := by
                simp [Piece.behind, Nat.add_right_comm]
              simp only [commentInner?, opened, opened', closed, Option.bind_eq_bind,
                Option.bind_some, Option.map_some, innerEq, Piece.dropLeading_behind,
                Piece.dropTrailing_behind]
  | regionDirective => rfl
  | endRegionDirective => rfl

namespace Candidate

private theorem inner?_behind (kind : TriviaKind) (whole : Piece) :
    inner? kind (whole.behind front) = (inner? kind whole).map (Piece.behind front) := by
  have commentEq :
      (commentInner? kind (whole.behind front)).map Piece.trim =
        ((commentInner? kind whole).map Piece.trim).map (Piece.behind front) := by
    rw [commentInner?_behind, Option.map_map, Option.map_map]
    exact congrArg (Option.map · _) (funext (Piece.trim_behind front))
  have directiveEq :
      ((Directive.read? whole.text).map fun found =>
          (contentOf?.pieceBehind (whole.behind front) found.2).trim) =
        ((Directive.read? whole.text).map fun found =>
          (contentOf?.pieceBehind whole found.2).trim).map (Piece.behind front) := by
    rw [Option.map_map]
    refine congrArg (Option.map · _) (funext fun found => ?_)
    rw [Function.comp_apply, ← Piece.trim_behind]
    simp [contentOf?.pieceBehind, Piece.behind, Nat.add_right_comm]
  cases kind with
  | lineComment => exact commentEq
  | blockComment => exact commentEq
  | regionDirective => exact directiveEq
  | endRegionDirective => exact directiveEq

private theorem contentOf?_behind (kind : TriviaKind) (whole : Piece) :
    contentOf? kind (whole.behind front) =
      (contentOf? kind whole).map fun (found, content) => (found, content.behind front) := by
  rw [contentOf?_eq_bind, contentOf?_eq_bind, inner?_behind]
  cases inner? kind whole with
  | none => rfl
  | some content =>
      simp only [Option.map_some, Option.bind_some, Piece.behind, Option.map_map]
      rfl

end Candidate

private theorem Payload.ofPiece_behind (rest : Piece) :
    Payload.ofPiece (rest.behind front) =
      { Payload.ofPiece rest with
        tagSpan := (Payload.ofPiece rest).tagSpan.map (Span.behind front) } := by
  cases found : LocationTag.parse? (Text.splitLastWord (Text.trimEnd rest.text)).2 with
  | none =>
      simp only [Payload.ofPiece, Piece.behind, found, Option.map_none]
      rfl
  | some tag =>
      simp only [Payload.ofPiece, Piece.behind, found, Option.map_some, Span.behind]
      simp [Nat.add_right_comm]

private theorem Marker.ofContent_behind
    (keyword : MarkerKeyword)
    (word : Text)
    (kind : TriviaKind)
    (position : Position)
    (content : Piece) :
    Marker.ofContent keyword word kind (position.behind front) (content.behind front) =
      (Marker.ofContent keyword word kind position content).behind front := by
  have restEq :
      (⟨(content.behind front).offset + Text.byteSize word,
          (content.behind front).text.drop word.length⟩ : Piece) =
        Piece.behind front
          ⟨content.offset + Text.byteSize word, content.text.drop word.length⟩ := by
    simp [Piece.behind, Nat.add_right_comm]
  have stopEq : (content.behind front).span.stop = content.span.stop + Text.byteSize front :=
    Nat.add_right_comm _ _ _
  simp only [Marker.ofContent, restEq, stopEq, Payload.ofPiece_behind]
  rfl

namespace PairingItem

/-- What a candidate is for pairing, told by its keyword. -/
theorem ofCandidate?_eq (candidate : Candidate) :
    ofCandidate? candidate =
      some (match candidate.kind.keyword? with
        | none => .plainRegion
        | some (keyword, word) =>
          .marker
            (Marker.ofContent keyword word candidate.trivia candidate.position
              candidate.content)) := by
  obtain ⟨kind, trivia, position, content⟩ := candidate
  cases kind <;> rfl

private theorem ofPiece?_behind (kind : TriviaKind) (position : Position) (whole : Piece) :
    ofPiece? kind (position.behind front) (whole.behind front) =
      (ofPiece? kind position whole).map (mapMarker (Marker.behind front)) := by
  rw [ofPiece?, ofPiece?, Candidate.contentOf?_behind]
  cases Candidate.contentOf? kind whole with
  | none => rfl
  | some pair =>
      obtain ⟨found, content⟩ := pair
      simp only [Option.map_some, Option.bind_some, ofCandidate?_eq]
      cases found.keyword? with
      | none => rfl
      | some pair =>
          obtain ⟨keyword, word⟩ := pair
          exact
            congrArg (fun marker => some (PairingItem.marker marker))
              (Marker.ofContent_behind front keyword word kind position content)

private theorem ofTrivia?_append_left
    {front : Text}
    {item : Trivia}
    (holds : item.Holds front)
    (back : Text) :
    ofTrivia? (Source.ofText (front ++ back)) item = ofTrivia? (Source.ofText front) item := by
  have within := holds.stop_le
  have ordered := holds.start_le_stop
  obtain ⟨piece, sliced, _⟩ := holds
  have slicedEq : (Source.ofText front).slice? item.span = some piece := sliced
  have slicedEq' : (Source.ofText (front ++ back)).slice? item.span = some piece :=
    Text.slice?_append_left sliced back
  have positionEq :
      (Source.ofText (front ++ back)).positionOf item.span =
        (Source.ofText front).positionOf item.span := by
    rw [Source.positionOf, Source.pointAt_append_left (Nat.le_trans ordered within),
      Source.pointAt_append_left within, Source.positionOf]
  rw [ofTrivia?_eq_bind, ofTrivia?_eq_bind, slicedEq, slicedEq', positionEq]

private theorem ofTrivia?_append_right
    {front : Text}
    (ended : front.getLast? = some '\n')
    (back : Text)
    (item : Trivia) :
    ofTrivia? (Source.ofText (front ++ back)) (item.behind front) =
      (ofTrivia? (Source.ofText back) item).map (mapMarker (Marker.behind front)) := by
  have slicedEq :
      (Source.ofText (front ++ back)).slice? (item.span.behind front) =
        (Source.ofText back).slice? item.span :=
    Text.slice?_append_right _ _ front back
  have positionEq :
      (Source.ofText (front ++ back)).positionOf (item.span.behind front) =
        ((Source.ofText back).positionOf item.span).behind front := by
    simp only [Source.positionOf, Span.behind, Source.pointAt_append_right ended]
    rfl
  rw [ofTrivia?_eq_bind, ofTrivia?_eq_bind, Trivia.behind, slicedEq, positionEq]
  cases (Source.ofText back).slice? item.span with
  | none => rfl
  | some text => exact ofPiece?_behind front _ _ ⟨item.span.start, text⟩

end PairingItem

/-- The items of two texts, one behind the other. -/
theorem Document.pairingItems_append_behind
    {front : Text}
    {trivia : List Trivia}
    (ended : front.getLast? = some '\n')
    (holds : ∀ item ∈ trivia, item.Holds front)
    (back : Text)
    (trivia' : List Trivia) :
    pairingItems (Source.ofText (front ++ back)) (trivia ++ trivia'.map (Trivia.behind front)) =
      pairingItems (Source.ofText front) trivia ++
        (pairingItems (Source.ofText back) trivia').map
          (PairingItem.mapMarker (Marker.behind front)) := by
  simp only [pairingItems_eq_filterMap, List.filterMap_append, List.filterMap_map,
    List.map_filterMap]
  congr 1
  · exact
      List.filterMap_congr fun item member =>
        PairingItem.ofTrivia?_append_left (holds item member) back
  · exact
      List.filterMap_congr fun item _ => PairingItem.ofTrivia?_append_right ended back item

end MacroRegions

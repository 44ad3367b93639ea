import MacroRegions.Marker.Basic
import MacroRegions.Marker.Candidate

/-!
Reading a candidate as a marker.

Behind the keyword stand the macro invocation and, as the last word, perhaps
a location tag. Reading never fails: a last word that is no location tag
belongs to the invocation.
-/

namespace MacroRegions

/-- The keyword of a kind of candidate, and the word that it is written as.
Plain regions have none. -/
def CandidateKind.keyword? : CandidateKind → Option (MarkerKeyword × Text)
  | plainRegionStart => none
  | regionStart => some (.macroStart, startKeyword)
  | commentStart => some (.macroStart, startKeyword)
  | commentEnd => some (.macroEnd, endKeyword)
  | regionEnd => some (.macroEnd, [])

/-- What stands behind a keyword, with a location tag told apart. -/
structure Payload where
  tag : Option LocationTag
  tagSpan : Option Span
  remainder : Text
  malformedTag : Bool
deriving DecidableEq, Repr, Inhabited

def Payload.ofPiece (rest : Piece) : Payload :=
  let trimmed := Text.trimEnd rest.text
  let (front, word) := Text.splitLastWord trimmed
  match LocationTag.parse? word with
  | some tag =>
    let start := rest.offset + Text.byteSize front
    ⟨some tag, some ⟨start, start + Text.byteSize word⟩, front, false⟩
  | none => ⟨none, none, rest.text, word.head? = some '#'⟩

/-- A line of a block comment without the ` * ` that it may begin with. -/
def stripGutter (line : Text) : Text :=
  match Text.trimStart line with
  | '*' :: ' ' :: rest => rest
  | '*' :: rest => rest
  | rest => rest

def stripGutters (body : Text) : Text :=
  match Text.lines body with
  | [] => []
  | first :: later => later.foldl (fun cleaned line => cleaned ++ '\n' :: stripGutter line) first

/-- The macro invocation in what a location tag leaves, if there is one. -/
def bodyOf? (form : MarkerForm) (remainder : Text) : Option Text :=
  match Text.trim remainder with
  | [] => none
  | body =>
    match form with
    | .blockComment => some (stripGutters body)
    | .region | .lineComment => some body

/-- The marker that a candidate is. Only plain regions are none. -/
def Candidate.classify? (candidate : Candidate) : Option Marker := do
  let (keyword, word) ← candidate.kind.keyword?
  let content := candidate.content
  let form := MarkerForm.ofTriviaKind candidate.trivia
  let payload :=
    Payload.ofPiece
      ⟨content.offset + Text.byteSize word, content.text.drop word.length⟩
  some {
    keyword := keyword
    form := form
    tag := payload.tag
    body := match keyword with
      | .macroStart => bodyOf? form payload.remainder
      | .macroEnd => none
    position := candidate.position
    tagSpan := payload.tagSpan
    insertOffset := content.span.stop
    malformedTag := payload.malformedTag
  }

end MacroRegions

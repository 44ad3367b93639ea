import MacroRegions.LocationTag
import MacroRegions.Source
import MacroRegions.Trivia.Basic

/-!
Candidates: the comments and directives that look like macro markers.

A comment is a candidate when what it holds, its delimiters and the blanks
around it left out, begins with the word `Macro`, or is the word `EndMacro`
alone or with a location tag behind it. Every region directive is one.
-/

namespace MacroRegions

/-- What a candidate looks like. A plain region is a `#region` without the word `Macro`.
It opens no block but pairs with an `#endregion`. -/
inductive CandidateKind where
  | regionStart
  | plainRegionStart
  | regionEnd
  | commentStart
  | commentEnd
deriving DecidableEq, Repr, Inhabited

def CandidateKind.name : CandidateKind → String
  | regionStart => "RegionStart"
  | plainRegionStart => "PlainRegionStart"
  | regionEnd => "RegionEnd"
  | commentStart => "CommentStart"
  | commentEnd => "CommentEnd"

def startKeyword : Text := ['M', 'a', 'c', 'r', 'o']

def endKeyword : Text := ['E', 'n', 'd', 'M', 'a', 'c', 'r', 'o']

/-- Whether a text begins with `keyword` as a whole word. -/
def beginsWithKeyword (keyword text : Text) : Bool :=
  text.take keyword.length = keyword && Text.endsWord (text.drop keyword.length)

/-- Whether a text begins with `keyword` as a whole word, capital and small
ASCII letters being the same. -/
def beginsWithKeywordInAnyCase (keyword text : Text) : Bool :=
  (text.take keyword.length).map Char.toLower = keyword.map Char.toLower &&
    Text.endsWord (text.drop keyword.length)

/-- A part of a text and the offset at which it begins. -/
structure Piece where
  offset : Nat
  text : Text
deriving DecidableEq, Repr, Inhabited

namespace Piece

def span (piece : Piece) : Span :=
  ⟨piece.offset, piece.offset + Text.byteSize piece.text⟩

/-- The piece without the blanks around it. A piece of blanks alone shrinks to
its beginning. -/
def trim (piece : Piece) : Piece :=
  match Text.trim piece.text with
  | [] => ⟨piece.offset, []⟩
  | trimmed => ⟨piece.offset + Text.indentSize piece.text, trimmed⟩

def dropLeading (c : Char) (piece : Piece) : Piece :=
  let front := piece.text.takeWhile (· = c)
  ⟨piece.offset + Text.byteSize front, piece.text.dropWhile (· = c)⟩

def dropTrailing (c : Char) (piece : Piece) : Piece :=
  ⟨piece.offset, (piece.text.reverse.dropWhile (· = c)).reverse⟩

end Piece

/-- What a comment holds, without its delimiters: all slashes before a line
comment, and the stars at both ends of a block comment too. -/
def commentInner? (kind : TriviaKind) (comment : Piece) : Option Piece :=
  match kind with
  | .lineComment => some (comment.dropLeading '/')
  | .blockComment => do
    let opened ← Text.afterPrefix? ['/', '*'] comment.text
    let inner ← Text.beforeSuffix? ['*', '/'] opened
    some (((⟨comment.offset + 2, inner⟩ : Piece).dropLeading '*').dropTrailing '*')
  | _ => none

/-- Whether a comment end may go on with `rest` behind its keyword: nothing, or
one location tag. -/
def isEndSuffix (rest : Text) : Bool :=
  let rest := Text.trim rest
  rest.isEmpty || (!rest.any isBlank && (LocationTag.parse? rest).isSome)

/-- The kind of candidate that a comment is, by the trimmed text that it
holds. -/
def commentKind? (content : Text) : Option CandidateKind :=
  if beginsWithKeyword startKeyword content then
    some .commentStart
  else if beginsWithKeyword endKeyword content &&
      isEndSuffix (content.drop endKeyword.length) then
    some .commentEnd
  else
    none

/-- The kind of candidate that a directive is, by the trimmed text behind its
keyword. -/
def directiveKind (directive : Directive) (content : Text) : CandidateKind :=
  match directive with
  | .closing => .regionEnd
  | .opening =>
    if beginsWithKeywordInAnyCase startKeyword content then
      .regionStart
    else
      .plainRegionStart

/-- A piece of trivia that may be a marker. Its content is the trimmed text from the
keyword on, and for region ends whatever follows the keyword. -/
structure Candidate where
  kind : CandidateKind
  trivia : TriviaKind
  position : Position
  content : Piece
deriving DecidableEq, Repr, Inhabited

namespace Candidate

/-- What the text of a piece of trivia looks like, and the text to be read. -/
def contentOf? (kind : TriviaKind) (whole : Piece) : Option (CandidateKind × Piece) :=
  match kind with
  | .lineComment | .blockComment => do
    let content := (← commentInner? kind whole).trim
    let candidateKind ← commentKind? content.text
    some (candidateKind, content)
  | .regionDirective => do
    let (_, after) ← Directive.read? whole.text
    let content := (pieceBehind whole after).trim
    some (directiveKind .opening content.text, content)
  | .endRegionDirective => do
    let (_, after) ← Directive.read? whole.text
    let content := (pieceBehind whole after).trim
    some (directiveKind .closing content.text, content)
where
  pieceBehind (whole : Piece) (after : Text) : Piece :=
    ⟨whole.offset + (Text.byteSize whole.text - Text.byteSize after), after⟩

def ofTrivia? (source : Source) (item : Trivia) : Option Candidate := do
  let text ← source.slice? item.span
  let (kind, content) ← contentOf? item.kind ⟨item.span.start, text⟩
  some ⟨kind, item.kind, source.positionOf item.span, content⟩

end Candidate

def candidates (source : Source) (trivia : List Trivia) : List Candidate :=
  trivia.filterMap (Candidate.ofTrivia? source)

end MacroRegions

import MacroRegions.Position
import MacroRegions.Text.Blank

/-!
Comments and region directives.

These are the pieces of a text in which markers are written. A piece of
trivia is a kind and a span; the text in the span has the shape of its kind.
-/

namespace MacroRegions

/-- The kinds of text in which a marker can be written. -/
inductive TriviaKind where
  | lineComment
  | blockComment
  | regionDirective
  | endRegionDirective
deriving DecidableEq, Repr, Inhabited

namespace TriviaKind

def all : List TriviaKind :=
  [lineComment, blockComment, regionDirective, endRegionDirective]

def name : TriviaKind → String
  | lineComment => "LineComment"
  | blockComment => "BlockComment"
  | regionDirective => "RegionDirective"
  | endRegionDirective => "EndRegionDirective"

def ofName? (name : String) : Option TriviaKind :=
  all.find? (·.name = name)

end TriviaKind

/-- A comment or a region directive of a text. -/
structure Trivia where
  kind : TriviaKind
  span : Span
deriving DecidableEq, Repr, Inhabited

inductive Directive where
  | opening
  | closing
deriving DecidableEq, Repr, Inhabited

namespace Directive

def keyword : Directive → Text
  | opening => ['r', 'e', 'g', 'i', 'o', 'n']
  | closing => ['e', 'n', 'd', 'r', 'e', 'g', 'i', 'o', 'n']

def triviaKind : Directive → TriviaKind
  | opening => .regionDirective
  | closing => .endRegionDirective

/-- What follows the directive's keyword in `text`, if `text` begins with the
keyword as a whole word. -/
def afterKeyword? (directive : Directive) (text : Text) : Option Text :=
  (Text.afterPrefix? directive.keyword text).filter Text.endsWord

/-- Reads a line as a directive and what follows its keyword. Blanks may stand
before the `#`, and spaces and tabs behind it. -/
def read? (line : Text) : Option (Directive × Text) :=
  if '\n' ∈ line then
    none
  else
    match Text.trimStart line with
    | '#' :: rest =>
      let rest := rest.dropWhile fun c => c = ' ' || c = '\t'
      match closing.afterKeyword? rest with
      | some after => some (closing, after)
      | none => (opening.afterKeyword? rest).map (opening, ·)
    | _ => none

end Directive

end MacroRegions

import MacroRegions.LocationTag
import MacroRegions.Trivia.Basic

/-!
Markers: the comments and directives that open and close macro blocks.
-/

namespace MacroRegions

/-- Whether a marker opens or closes a macro block. -/
inductive MarkerKeyword where
  | macroStart
  | macroEnd
deriving DecidableEq, Repr, Inhabited

namespace MarkerKeyword

def all : List MarkerKeyword := [macroStart, macroEnd]

def name : MarkerKeyword → String
  | macroStart => "MacroStart"
  | macroEnd => "MacroEnd"

end MarkerKeyword

/-- The form in which a marker is written. -/
inductive MarkerForm where
  | region
  | lineComment
  | blockComment
deriving DecidableEq, Repr, Inhabited

namespace MarkerForm

def all : List MarkerForm := [region, lineComment, blockComment]

def name : MarkerForm → String
  | region => "Region"
  | lineComment => "LineComment"
  | blockComment => "BlockComment"

/-- The form of the markers that are written in a kind of trivia. -/
def ofTriviaKind : TriviaKind → MarkerForm
  | .lineComment => lineComment
  | .blockComment => blockComment
  | .regionDirective => region
  | .endRegionDirective => region

end MarkerForm

/-- Markers pair within their family: regions with regions, and comments of
either form with comments of either form. -/
inductive MarkerFamily where
  | region
  | comment
deriving DecidableEq, Repr, Inhabited

def MarkerForm.family : MarkerForm → MarkerFamily
  | region => .region
  | lineComment => .comment
  | blockComment => .comment

/-- A macro marker of a text. Only start markers have a body. A location tag that is
missing is to be written at `insertOffset`; a last word that begins like one but is none
is malformed and stays in the body. -/
structure Marker where
  keyword : MarkerKeyword
  form : MarkerForm
  tag : Option LocationTag
  body : Option Text
  position : Position
  tagSpan : Option Span
  insertOffset : Nat
  malformedTag : Bool
deriving DecidableEq, Repr, Inhabited

namespace Marker

def line (marker : Marker) : Nat :=
  marker.position.start.line

def isStart (marker : Marker) : Bool :=
  marker.keyword = .macroStart

def family (marker : Marker) : MarkerFamily :=
  marker.form.family

/-- The marker with another location tag. Its spans still refer to the text
that it was found in. -/
def withTag (marker : Marker) (tag : Option LocationTag) : Marker :=
  { marker with tag := tag }

end Marker

end MacroRegions

import MacroRegions.Trivia.Basic

/-!
Checking trivia that a host supplies.

The spans of a list of trivia have to be in order, within the text and apart
from each other, and each has to hold text of the shape of its kind. The
first piece of trivia that is at fault is reported, with the first of its
faults.
-/

namespace MacroRegions

/-- What can be wrong with a piece of trivia: its span ends before it starts, leaves the
text or cuts a character, or starts before the previous one ends, or its text does not
have the shape of its kind. -/
inductive TriviaFault where
  | reversed
  | outOfBounds
  | overlapping
  | misshapen (kind : TriviaKind)
deriving DecidableEq, Repr, Inhabited

namespace TriviaFault

def reason : TriviaFault → String
  | reversed => "span start is after span end"
  | outOfBounds => "span is out of bounds or not on a char boundary"
  | overlapping => "span overlaps or precedes the previous span"
  | misshapen kind => "span does not look like a " ++ kind.name

end TriviaFault

namespace TriviaKind

def fits (kind : TriviaKind) (text : Text) : Bool :=
  match kind with
  | lineComment => (Text.afterPrefix? ['/', '/'] text).isSome && '\n' ∉ text
  | blockComment =>
    4 ≤ Text.byteSize text && (Text.afterPrefix? ['/', '*'] text).isSome &&
      (Text.beforeSuffix? ['*', '/'] text).isSome
  | regionDirective => (Directive.read? text).any (·.1 = .opening)
  | endRegionDirective => (Directive.read? text).any (·.1 = .closing)

end TriviaKind

namespace Trivia

/-- The first fault of a piece of trivia, if the one before it ends at
`previousStop`. -/
def fault? (text : Text) (previousStop : Nat) (item : Trivia) : Option TriviaFault :=
  if item.span.stop < item.span.start then
    some .reversed
  else
    match Text.slice? item.span.start item.span.stop text with
    | none => some .outOfBounds
    | some piece =>
      if item.span.start < previousStop then
        some .overlapping
      else if item.kind.fits piece then
        none
      else
        some (.misshapen item.kind)

def firstFaultFrom
    (text : Text)
    (previousStop : Nat)
    (index : Nat) :
    List Trivia → Option (Nat × TriviaFault)
  | [] => none
  | item :: rest =>
    match fault? text previousStop item with
    | some fault => some (index, fault)
    | none => firstFaultFrom text item.span.stop (index + 1) rest

def firstFault? (text : Text) (trivia : List Trivia) : Option (Nat × TriviaFault) :=
  firstFaultFrom text 0 0 trivia

end Trivia

end MacroRegions

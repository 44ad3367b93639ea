import MacroRegions.Document.Nesting
import MacroRegions.Failure
import MacroRegions.Log
import MacroRegions.Marker.Scan
import MacroRegions.Trivia.Lexeme

/-!
Parsing documents.

The trivia of a document is extracted from its text, or a host supplies it.
Supplied trivia is checked first, and nothing but a fault in it makes parsing
fail.
-/

namespace MacroRegions

/-- Whether words that look like location tags but are none are reported. -/
structure ParseOptions where
  strictLocationTags : Bool
deriving DecidableEq, Repr, Inhabited

namespace ParseOptions

/-- Such words are not reported. -/
def lenient : ParseOptions := ⟨false⟩

end ParseOptions

namespace Document

def pairingItems (source : Source) (trivia : List Trivia) : List PairingItem :=
  (candidates source trivia).filterMap PairingItem.ofCandidate?

/-- The document that the markers in `trivia` make up. -/
def ofTrivia
    (filePath : Text)
    (source : Source)
    (trivia : List Trivia)
    (options : ParseOptions) :
    Document :=
  let (nesting, turns) :=
    Nesting.empty.run options.strictLocationTags (pairingItems source trivia)
  let (tree, unterminated) := nesting.finish
  ⟨filePath, tree, turns.flatMap (·.2) ++ unterminated⟩

def parse (filePath : Text) (source : Source) (options : ParseOptions) : Document :=
  ofTrivia filePath source (Trivia.extract source.text) options

/-- The document of a text whose trivia a host supplies. -/
def parseWithTrivia
    (filePath : Text)
    (source : Source)
    (trivia : List Trivia)
    (options : ParseOptions) :
    Except Failure Document :=
  match Trivia.firstFault? source.text trivia with
  | some (index, fault) => .error (.malformedTrivia index fault)
  | none => .ok (ofTrivia filePath source trivia options)

/-- What is recorded for a problem. Malformed location tags are not. -/
def problemEvents (problem : ParseProblem) : List LogEvent :=
  match problem.kind with
  | .unmatchedEnd => [.endUnmatched problem.line]
  | .outOfOrder => [.blockOutOfOrder problem.line]
  | .unterminated => [.blockUnterminated problem.line]
  | .malformedLocationTag => []

/-- What is recorded for an item. Plain regions are not. -/
def itemEvents : PairingItem → List LogEvent
  | .plainRegion => []
  | .marker marker => [.markerFound marker.keyword marker.form marker.line]

def eventsOfTrivia
    (filePath : Text)
    (source : Source)
    (trivia : List Trivia)
    (options : ParseOptions) :
    List LogEvent :=
  let (nesting, turns) :=
    Nesting.empty.run options.strictLocationTags (pairingItems source trivia)
  .documentOpened filePath ::
    turns.flatMap (fun (item, problems) =>
      itemEvents item ++ problems.flatMap problemEvents) ++
    nesting.finish.2.flatMap problemEvents

structure Input where
  filePath : Text
  source : Source
  trivia : Option (List Trivia)

namespace Input

def parse (input : Input) (options : ParseOptions) : Except Failure Document :=
  match input.trivia with
  | some trivia => parseWithTrivia input.filePath input.source trivia options
  | none => .ok (Document.parse input.filePath input.source options)

/-- What is recorded while an input is parsed: nothing if its trivia is at
fault. -/
def events (input : Input) (options : ParseOptions) : List LogEvent :=
  match input.parse options with
  | .ok _ =>
    eventsOfTrivia input.filePath input.source
      (input.trivia.getD (Trivia.extract input.source.text)) options
  | .error _ => []

end Input

/-- Parses inputs until the batch is cancelled. Here `cancelled` tells whether
it is when the input of a number is taken, and `number` is the number of the
first input. A failure concerns its own input only. -/
def parseBatch
    (options : ParseOptions)
    (cancelled : Nat → Bool)
    (number : Nat) :
    List Input → List (Text × Except Failure Document)
  | [] => []
  | input :: rest =>
    if cancelled number then
      []
    else
      (input.filePath, input.parse options) ::
        parseBatch options cancelled (number + 1) rest

def failureEvents (filePath : Text) : Except Failure Document → List LogEvent
  | .ok _ => []
  | .error failure => [.documentFailed filePath (failure.message.getD "").toList]

def batchEvents
    (options : ParseOptions)
    (cancelled : Nat → Bool)
    (number : Nat) :
    List Input → List LogEvent
  | [] => []
  | input :: rest =>
    if cancelled number then
      [.batchCancelled]
    else
      input.events options ++ failureEvents input.filePath (input.parse options) ++
        batchEvents options cancelled (number + 1) rest

end Document

end MacroRegions

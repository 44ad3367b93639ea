import MacroRegions.Marker.Basic
import MacroRegions.Text.Quoted

/-!
The log: what is recorded while documents are parsed, updated and analyzed.

An event says what happened; its record says how it is shown, with a level
and named fields.
-/

namespace MacroRegions

/-- What can be recorded. -/
inductive LogEvent where
  | documentOpened (filePath : Text)
  | markerFound (keyword : MarkerKeyword) (form : MarkerForm) (line : Nat)
  | endUnmatched (line : Nat)
  | blockOutOfOrder (line : Nat)
  | blockUnterminated (line : Nat)
  | tagChanged (line : Nat) (tag : Option LocationTag)
  | lookupFailed (line : Nat) (error : Text)
  | documentFailed (filePath : Text) (error : Text)
  | batchCancelled
deriving DecidableEq, Repr, Inhabited

inductive LogLevel where
  | trace
  | debug
deriving DecidableEq, Repr, Inhabited

def LogLevel.name : LogLevel → String
  | trace => "TRACE"
  | debug => "DEBUG"

inductive LogValue where
  | number (value : Nat)
  | text (value : Text)
deriving DecidableEq, Repr, Inhabited

/-- A recorded event, with the name of the span that it opens if it opens one. -/
structure LogRecord where
  level : LogLevel
  openedSpan : Option String
  fields : List (String × LogValue)
deriving DecidableEq, Repr, Inhabited

def LocationTag.describe (tag : LocationTag) : Text :=
  let path := match tag.filePath with
    | none => "None".toList
    | some path => "Some(".toList ++ Text.quote path ++ [')']
  "LocationTag \x7b file_path: ".toList ++ path ++ ", line_identifier: ".toList ++
    Text.numeral tag.line ++ " \x7d".toList

/-- A location tag with the names of its parts, or that there is none. -/
def describeTag? : Option LocationTag → Text
  | none => "None".toList
  | some tag => "Some(".toList ++ tag.describe ++ [')']

namespace LogEvent

def debugRecord (message : String) (fields : List (String × LogValue)) : LogRecord :=
  ⟨.debug, none, ("message", .text message.toList) :: fields⟩

/-- How an event is shown. -/
def record : LogEvent → LogRecord
  | documentOpened filePath =>
    ⟨.debug, some "build_document", [("file_path", .text filePath)]⟩
  | markerFound keyword form line =>
    ⟨.trace, none, [
      ("message", .text "marker".toList),
      ("keyword", .text keyword.name.toList),
      ("syntax", .text form.name.toList),
      ("line", .number line)]⟩
  | endUnmatched line =>
    debugRecord "end marker without a matching start" [("line", .number line)]
  | blockOutOfOrder line =>
    debugRecord "block closed out of order" [("line", .number line)]
  | blockUnterminated line =>
    debugRecord "unterminated macro block" [("line", .number line)]
  | tagChanged line tag =>
    debugRecord "rewrote location tag"
      [("line", .number line), ("tag", .text (describeTag? tag))]
  | lookupFailed line error =>
    debugRecord "declaration lookup failed" [("line", .number line), ("error", .text error)]
  | documentFailed filePath error =>
    debugRecord "document failed to parse"
      [("file_path", .text filePath), ("error", .text error)]
  | batchCancelled => debugRecord "document batch cancelled" []

end LogEvent

end MacroRegions

import MacroRegions.Document.Parse
import MacroRegions.Exchange.Reading
import MacroRegions.Exchange.Writing
import MacroRegions.Update.Document

/-!
Sessions: one text that is edited, parsed and brought up to date in turns.

The document of a session is the one that was parsed or updated last. Its
offsets refer to the text that it was parsed from, also when the text has
changed since.
-/

namespace MacroRegions

structure Session where
  source : Source
  filePath : Text
  parseOptions : ParseOptions
  updateOptions : UpdateOptions
  document : Option Document

namespace Session

/-- Makes one edit. There is no answer if it would cut a character. -/
def edit? (session : Session) (edit : TextEdit) : Option Session :=
  (TextEdit.applyAll? [edit] session.source.text).map fun text =>
    { session with source := Source.ofText text }

def insertAtLine? (session : Session) (line : Nat) (text : Text) : Option Session := do
  let offset ← session.source.offsetOf? line 1
  session.edit? ⟨⟨offset, offset⟩, text⟩

def parse (session : Session) : Document :=
  Document.parse session.filePath session.source session.parseOptions

def parseEvents (session : Session) : List LogEvent :=
  Document.eventsOfTrivia session.filePath session.source
    (Trivia.extract session.source.text) session.parseOptions

def withDocument (session : Session) (document : Document) : Session :=
  { session with document := some document }

/-- Brings the location tags of a document and of the text up to date. There is
no answer if an edit would cut a character. -/
def update? (session : Session) (document : Document) :
    Option (DocumentUpdate × Session) := do
  let update ← document.updateTags? session.source session.updateOptions
  some (
    update,
    { session with
      source := match update.content with
        | some content => Source.ofText content
        | none => session.source
      document := some update.document })

/-- The document that comes back when one is written to a text and read again.
None comes back if its blocks nest too deep. -/
def exchange? (document : Document) : Option Document :=
  let value := Exchange.writeDocument document
  if value.isShallow then Exchange.readDocument value else none

end Session

end MacroRegions

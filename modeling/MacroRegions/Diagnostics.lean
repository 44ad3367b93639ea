import MacroRegions.Document.Basic

/-!
Diagnostics: one message for each macro block of a document.
-/

namespace MacroRegions

/-- How serious the diagnostics of macro blocks are. There are none if they are
hidden. -/
inductive Severity where
  | error
  | warning
  | info
  | hidden
deriving DecidableEq, Repr, Inhabited

namespace Severity

def all : List Severity := [error, warning, info, hidden]

def name : Severity → String
  | error => "error"
  | warning => "warning"
  | info => "info"
  | hidden => "hidden"

/-- The name of a severity in a report. -/
def reportName? : Severity → Option String
  | error => some "Error"
  | warning => some "Warning"
  | info => some "Advice"
  | hidden => none

end Severity

def macroBlockId : String := "RM0001"

def macroBlockCode : String := "regmacro::macro_block"

/-- A message at the start of a macro block. -/
structure MacroDiagnostic where
  severity : Severity
  filePath : Text
  position : Position
  body : Option Text
deriving DecidableEq, Repr, Inhabited

namespace MacroDiagnostic

def line (diagnostic : MacroDiagnostic) : Nat :=
  diagnostic.position.start.line

def column (diagnostic : MacroDiagnostic) : Nat :=
  diagnostic.position.start.column

def message (diagnostic : MacroDiagnostic) : Text :=
  "Macro: ".toList ++ diagnostic.body.getD []

/-- The offset and the length of what the diagnostic points at. -/
def label (diagnostic : MacroDiagnostic) : Nat × Nat :=
  let span := diagnostic.position.span
  (span.start, span.stop - span.start)

end MacroDiagnostic

namespace Document

/-- The diagnostics of a document, one for each start marker. -/
def diagnostics (document : Document) (severity : Severity) : List MacroDiagnostic :=
  if severity = .hidden then
    []
  else
    (document.blocks.filterMap (·.start)).map fun start =>
      ⟨severity, document.filePath, start.position, start.body⟩

end Document

end MacroRegions

import MacroRegions.Document.Basic
import MacroRegions.Exchange.Value

/-!
Writing documents in the exchange format. Every field is written, also when
it is absent.
-/

namespace MacroRegions

namespace Exchange

/-- A value that may be absent. -/
def writeNullable {α : Type} (write : α → Value) : Option α → Value
  | none => .null
  | some value => write value

def writeName (name : String) : Value :=
  .text name.toList

def writePoint (point : Point) : Value :=
  .record [
    ("line", .number point.line),
    ("column", .number point.column),
    ("offset", .number point.offset)]

def writePosition (position : Position) : Value :=
  .record [("start", writePoint position.start), ("end", writePoint position.stop)]

def writeSpan (span : Span) : Value :=
  .record [("start", .number span.start), ("end", .number span.stop)]

def writeTag (tag : LocationTag) : Value :=
  .record [
    ("file_path", writeNullable .text tag.filePath),
    ("line_identifier", .number tag.line)]

def writeMarker (marker : Marker) : Value :=
  .record [
    ("keyword", writeName marker.keyword.name),
    ("syntax", writeName marker.form.name),
    ("location_tag", writeNullable writeTag marker.tag),
    ("body", writeNullable .text marker.body),
    ("position", writePosition marker.position),
    ("location_range", writeNullable writeSpan marker.tagSpan),
    ("insert_offset", .number marker.insertOffset),
    ("malformed_location_tag", .flag marker.malformedTag)]

def writeBlock (block : Block) (children : List Value) : Value :=
  .record [
    ("start", writeNullable writeMarker block.start),
    ("end", writeNullable writeMarker block.stop),
    ("children", .list children),
    ("error", writeNullable (fun error => writeName error.name) block.error)]

def writeForest : BlockForest → List Value
  | .nil => []
  | .node block children siblings =>
    writeBlock block (writeForest children) :: writeForest siblings

def writeProblem (problem : ParseProblem) : Value :=
  .record [
    ("kind", writeName problem.kind.name),
    ("syntax", writeName problem.form.name),
    ("position", writePosition problem.position)]

def writeDocument (document : Document) : Value :=
  .record [
    ("file_path", .text document.filePath),
    ("tree", .list (writeForest document.tree)),
    ("diagnostics", .list (document.problems.map writeProblem))]

end Exchange

end MacroRegions

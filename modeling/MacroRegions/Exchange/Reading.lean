import MacroRegions.Diagnostics
import MacroRegions.Document.Basic
import MacroRegions.Exchange.Value

/-!
Reading documents in the exchange format.

A field that may be absent may be left out or null; every other field must be
there. Fields of other names are passed over, except in spans, which have
none. Whatever is not of the type that its place asks for cannot be read.
-/

namespace MacroRegions

namespace Exchange

/-- Reads a field that must be there. -/
def required {α : Type} (read : Value → Option α) (field : Option Value) : Option α :=
  field.bind read

def readNullable {α : Type} (read : Value → Option α) : Value → Option (Option α)
  | .null => some none
  | value => (read value).map some

/-- Reads a field that may be left out or null. -/
def nullable {α : Type} (read : Value → Option α) (field : Option Value) :
    Option (Option α) :=
  readNullable read (field.getD .null)

def readWord : Value → Option Nat
  | .number value => if value < wordLimit then some value else none
  | _ => none

def readText : Value → Option Text
  | .text value => some value
  | _ => none

def readFlag : Value → Option Bool
  | .flag value => some value
  | _ => none

/-- Reads one of several values by its name. The name may also be the only
field of a record, with nothing in it. -/
def readNamed {α : Type} (all : List α) (nameOf : α → String) : Value → Option α
  | .text name => all.find? fun value => (nameOf value).toList = name
  | .record [(name, .null)] => all.find? fun value => nameOf value = name
  | _ => none

def readList {α : Type} (read : Value → Option α) (value : Value) : Option (List α) :=
  value.items?.bind (·.mapM read)

def readPoint (value : Value) : Option Point :=
  match value.fields? ["line", "column", "offset"] with
  | some [line, column, offset] => do
    some ⟨← required readWord line, ← required readWord column, ← required readWord offset⟩
  | _ => none

def readPosition (value : Value) : Option Position :=
  match value.fields? ["start", "end"] with
  | some [start, stop] => do
    some ⟨← required readPoint start, ← required readPoint stop⟩
  | _ => none

def readSpan (value : Value) : Option Span :=
  match value.exactFields? ["start", "end"] with
  | some [start, stop] => do
    some ⟨← required readWord start, ← required readWord stop⟩
  | _ => none

def readTag (value : Value) : Option LocationTag :=
  match value.fields? ["file_path", "line_identifier"] with
  | some [filePath, line] => do
    some ⟨← nullable readText filePath, ← required readWord line⟩
  | _ => none

def readError (value : Value) : Option BlockError :=
  readNamed BlockError.all BlockError.name value

def readForm (value : Value) : Option MarkerForm :=
  readNamed MarkerForm.all MarkerForm.name value

def readSeverity (value : Value) : Option Severity :=
  readNamed Severity.all Severity.name value

def readMarker (value : Value) : Option Marker :=
  match value.fields? [
      "keyword", "syntax", "location_tag", "body", "position", "location_range",
      "insert_offset", "malformed_location_tag"] with
  | some [keyword, form, tag, body, position, tagSpan, insertOffset, malformedTag] => do
    some {
      keyword := ← required (readNamed MarkerKeyword.all MarkerKeyword.name) keyword
      form := ← required readForm form
      tag := ← nullable readTag tag
      body := ← nullable readText body
      position := ← required readPosition position
      tagSpan := ← nullable readSpan tagSpan
      insertOffset := ← required readWord insertOffset
      malformedTag := ← required readFlag malformedTag
    }
  | _ => none

/-- Reads a block, and takes the values of its children. -/
def readBlockHead (value : Value) : Option (Block × List Value) :=
  match value.fields? ["start", "end", "children", "error"] with
  | some [start, stop, some children, error] => do
    let items ← children.items?
    some (
      ⟨← nullable readMarker start, ← nullable readMarker stop, ← nullable readError error⟩,
      items)
  | _ => none

private theorem sizeOf_readBlockHead
    {value : Value}
    {block : Block}
    {items : List Value}
    (taken : readBlockHead value = some (block, items)) :
    sizeOf items < sizeOf value := by
  simp only [readBlockHead] at taken
  split at taken
  next start stop children error fieldsEq =>
    obtain ⟨items', itemsEq, rest⟩ := Option.bind_eq_some_iff.1 taken
    have same : items' = items := by
      obtain ⟨_, _, rest⟩ := Option.bind_eq_some_iff.1 rest
      obtain ⟨_, _, rest⟩ := Option.bind_eq_some_iff.1 rest
      obtain ⟨_, _, rest⟩ := Option.bind_eq_some_iff.1 rest
      exact (Prod.mk.inj (Option.some.inj rest)).2
    subst same
    have itemsSmaller := sizeOf_items? itemsEq
    have member : some children ∈ [start, stop, some children, error] := by simp
    have childrenSmaller := sizeOf_of_mem_fields? fieldsEq member
    omega
  next => simp at taken

def readForest : List Value → Option BlockForest
  | [] => some .nil
  | value :: rest =>
    match _ : readBlockHead value with
    | some (block, items) => do
      some (.node block (← readForest items) (← readForest rest))
    | none => none
termination_by values => sizeOf values
decreasing_by
  · have smaller := sizeOf_readBlockHead ‹readBlockHead value = some (block, items)›
    simp only [List.cons.sizeOf_spec]
    omega
  · simp only [List.cons.sizeOf_spec]
    omega

def readBlocks (value : Value) : Option BlockForest :=
  value.items?.bind readForest

def readProblem (value : Value) : Option ParseProblem :=
  match value.fields? ["kind", "syntax", "position"] with
  | some [kind, form, position] => do
    some ⟨← required readError kind, ← required readForm form, ← required readPosition position⟩
  | _ => none

def readDocument (value : Value) : Option Document :=
  match value.fields? ["file_path", "tree", "diagnostics"] with
  | some [filePath, tree, problems] => do
    some ⟨← required readText filePath, ← required readBlocks tree,
      ← required (readList readProblem) problems⟩
  | _ => none

end Exchange

end MacroRegions

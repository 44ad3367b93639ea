import MacroRegions.Position

/-!
Source texts addressed by line and column.

A source keeps, beside its text, the byte offset at which each line begins.
The first line begins at zero and every newline begins another one, so there
is always at least one line, and a newline belongs to the line that it ends.
-/

namespace MacroRegions

namespace Text

/-- The offsets right behind the newlines of a text that begins at `offset`. -/
def offsetsBehindNewlines (offset : Nat) : Text → List Nat
  | [] => []
  | c :: rest =>
    if c = '\n' then
      (offset + c.utf8Size) :: offsetsBehindNewlines (offset + c.utf8Size) rest
    else
      offsetsBehindNewlines (offset + c.utf8Size) rest

def lineStarts (text : Text) : List Nat :=
  0 :: offsetsBehindNewlines 0 text

end Text

/-- A text with its size and the table of its line starts. -/
structure Source where
  text : Text
  size : Nat
  lineStarts : List Nat
  size_eq : size = Text.byteSize text
  lineStarts_eq : lineStarts = Text.lineStarts text

namespace Source

def ofText (text : Text) : Source where
  text := text
  size := Text.byteSize text
  lineStarts := Text.lineStarts text
  size_eq := rfl
  lineStarts_eq := rfl

def lineCount (source : Source) : Nat :=
  source.lineStarts.length

/-- The point at an offset. An offset past the end stands for the end. The
line is the last one that begins at or before the offset. -/
def pointAt (source : Source) (offset : Nat) : Point :=
  let clamped := min offset source.size
  let begun := source.lineStarts.takeWhile (· ≤ clamped)
  ⟨begun.length, clamped - begun.getLastD 0 + 1, clamped⟩

def positionOf (source : Source) (span : Span) : Position :=
  ⟨source.pointAt span.start, source.pointAt span.stop⟩

/-- The offset at which the line of `offset` begins. -/
def lineStartOf (source : Source) (offset : Nat) : Nat :=
  (source.lineStarts.takeWhile (· ≤ min offset source.size)).getLastD 0

/-! ## From lines and columns to offsets -/

def lineStart? (source : Source) : (line : Nat) → Option Nat
  | 0 => none
  | index + 1 => source.lineStarts[index]?

/-- The offset at which a line ends, its newline left out. -/
def lineEnd? (source : Source) (line : Nat) : Option Nat :=
  if line = 0 || source.lineCount < line then
    none
  else
    some (match source.lineStarts[line]? with
      | some next => next - 1
      | none => source.size)

/-- The offset of a line and a column, both counted from one, unless the line
ends before it. The sum of line start and column counts round past the
largest word. -/
def offsetOf? (source : Source) (line column : Nat) : Option Nat := do
  let lineStart ← source.lineStart? line
  if column = 0 then
    none
  else
    let offset := wrapWord (lineStart + (column - 1))
    let lineEnd ← source.lineEnd? line
    if offset ≤ lineEnd then some offset else none

/-- The text of a span, if the span is in order, within the text and cuts no
character. -/
def slice? (source : Source) (span : Span) : Option Text :=
  Text.slice? span.start span.stop source.text

/-- The text of a line without its newline and one carriage return before it. -/
def line? (source : Source) (line : Nat) : Option Text := do
  let lineStart ← source.lineStart? line
  let lineEnd ← source.lineEnd? line
  (source.slice? ⟨lineStart, lineEnd⟩).map Text.withoutReturn

end Source

end MacroRegions

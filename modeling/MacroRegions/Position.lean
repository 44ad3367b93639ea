import MacroRegions.Text.Numeral

/-!
Spans, points and positions in a text.

A span is a half-open range of byte offsets. A point names one place three
ways: line and column counted from one, and the byte offset counted from
zero; the column counts bytes too. A position is the pair of points at the
ends of a span.
-/

namespace MacroRegions

/-- The byte offsets from `start` up to, but without, `stop`. -/
structure Span where
  start : Nat
  stop : Nat
deriving DecidableEq, Repr, Inhabited

structure Point where
  line : Nat
  column : Nat
  offset : Nat
deriving DecidableEq, Repr, Inhabited

namespace Point

def origin : Point := ⟨1, 1, 0⟩

/-- The place behind `c` for a character that begins at `point`. Each number
counts round past the largest word. -/
def step (point : Point) (c : Char) : Point :=
  if c = '\n' then
    ⟨wrapWord (point.line + 1), 1, wrapWord (point.offset + 1)⟩
  else
    ⟨point.line, wrapWord (point.column + c.utf8Size), wrapWord (point.offset + c.utf8Size)⟩

/-- The place behind `text` for a text that begins at `point`. -/
def advance (point : Point) (text : Text) : Point :=
  text.foldl step point

protected def compare (left right : Point) : Ordering :=
  (compare left.line right.line).then
    ((compare left.column right.column).then (compare left.offset right.offset))

def render (point : Point) : Text :=
  Text.numeral point.line ++ ':' :: Text.numeral point.column

@[simp]
theorem advance_nil (point : Point) : point.advance [] = point := rfl

@[simp]
theorem advance_cons (point : Point) (c : Char) (rest : Text) :
    point.advance (c :: rest) = (point.step c).advance rest := rfl

@[simp]
theorem advance_append (point : Point) (left right : Text) :
    point.advance (left ++ right) = (point.advance left).advance right :=
  List.foldl_append

end Point

/-- The two ends of a span. -/
structure Position where
  start : Point
  stop : Point
deriving DecidableEq, Repr, Inhabited

namespace Position

def span (position : Position) : Span :=
  ⟨position.start.offset, position.stop.offset⟩

/-- Whether `inner` lies entirely within `outer`. -/
def contains (outer inner : Position) : Bool :=
  outer.start.offset ≤ inner.start.offset && inner.stop.offset ≤ outer.stop.offset

def render (position : Position) : Text :=
  position.start.render ++ '-' :: position.stop.render

end Position

end MacroRegions

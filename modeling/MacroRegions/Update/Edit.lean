import MacroRegions.Block

/-!
Text edits.

An edit puts another text in the place of a span. Edits are made from the
end of the text to its beginning, so that one does not move the place of the
next; an edit that is out of bounds when its turn comes is left out.
-/

namespace MacroRegions

/-- A span and the text that is to take its place. -/
structure TextEdit where
  span : Span
  replacement : Text
deriving DecidableEq, Repr, Inhabited

namespace TextEdit

/-- Makes an edit. An edit out of bounds changes nothing; one that would cut a
character cannot be made. -/
def perform? (edit : TextEdit) (text : Text) : Option Text :=
  if edit.span.start ≤ edit.span.stop && edit.span.stop ≤ Text.byteSize text then do
    let front ← Text.takeBytes? edit.span.start text
    let back ← Text.dropBytes? edit.span.stop text
    some (front ++ edit.replacement ++ back)
  else
    some text

def startsAtOrBehind (edit other : TextEdit) : Bool :=
  other.span.start ≤ edit.span.start

/-- Makes edits, the last in the text first. Of edits that begin at the same
place the first in the list is made first. -/
def applyAll? (edits : List TextEdit) (text : Text) : Option Text :=
  (edits.mergeSort startsAtOrBehind).foldlM (fun current edit => edit.perform? current) text

end TextEdit

/-- The edit that turns the written location tag of one marker into that of
another. A tag that is not written yet goes behind the marker's content. -/
def Marker.edit? (before after : Marker) : Option TextEdit :=
  if before.tag = after.tag then
    none
  else
    match before.tagSpan, after.tag with
    | some span, some tag => some ⟨span, tag.render⟩
    | some span, none => some ⟨span, []⟩
    | none, some tag =>
      some ⟨⟨before.insertOffset, before.insertOffset⟩, ' ' :: tag.render⟩
    | none, none => none

def markerEdits : Option Marker → Option Marker → List TextEdit
  | some before, some after => (before.edit? after).toList
  | _, _ => []

def Block.edits (before after : Block) : List TextEdit :=
  markerEdits before.start after.start ++ markerEdits before.stop after.stop

/-- The edits that turn the written tags of one forest into those of another of
the same shape. -/
def BlockForest.edits (before after : BlockForest) : List TextEdit :=
  (before.zip after).flatMap fun (old, new) => old.edits new

end MacroRegions

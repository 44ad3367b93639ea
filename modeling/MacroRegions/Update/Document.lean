import MacroRegions.Document.Basic
import MacroRegions.Source
import MacroRegions.Update.Edit
import MacroRegions.Update.Revision

/-!
Bringing the location tags of a document and of its text up to date.
-/

namespace MacroRegions

/-- What bringing the location tags of a document up to date comes to. The offsets of
the document still refer to the old text, and there is a content only if there are
edits. -/
structure DocumentUpdate where
  update : TagUpdate
  document : Document
  edits : List TextEdit
  content : Option Text
deriving DecidableEq, Repr, Inhabited

namespace Document

/-- Brings the location tags of a document and of its text up to date. There is
no answer if an edit would cut a character, which a document of that text
never asks for. -/
def updateTags?
    (document : Document)
    (source : Source)
    (options : UpdateOptions) :
    Option DocumentUpdate := do
  let update := BlockForest.update options document.tree
  let edits := if update.modified then BlockForest.edits document.tree update.tree else []
  let content ←
    if edits.isEmpty then
      some none
    else
      (TextEdit.applyAll? edits source.text).map some
  some ⟨update, { document with tree := update.tree }, edits, content⟩

end Document

end MacroRegions

import MacroRegions.Proofs.Exchange.Trimming

/-!
Documents that come back from an exchange.

A document is read from what is written for it, with or without the fields that are
null, if its numbers are words. No other document can be read.
-/

namespace MacroRegions

structure Point.FitsWords (point : Point) : Prop where
  line_lt : point.line < wordLimit
  column_lt : point.column < wordLimit
  offset_lt : point.offset < wordLimit

structure Position.FitsWords (position : Position) : Prop where
  start : position.start.FitsWords
  stop : position.stop.FitsWords

structure Span.FitsWords (span : Span) : Prop where
  start_lt : span.start < wordLimit
  stop_lt : span.stop < wordLimit

structure LocationTag.FitsWords (tag : LocationTag) : Prop where
  line_lt : tag.line < wordLimit

structure Marker.FitsWords (marker : Marker) : Prop where
  tag : ∀ tag ∈ marker.tag, tag.FitsWords
  position : marker.position.FitsWords
  tagSpan : ∀ span ∈ marker.tagSpan, span.FitsWords
  insertOffset_lt : marker.insertOffset < wordLimit

structure Block.FitsWords (block : Block) : Prop where
  start : ∀ marker ∈ block.start, marker.FitsWords
  stop : ∀ marker ∈ block.stop, marker.FitsWords

structure Document.FitsWords (document : Document) : Prop where
  blocks : ∀ block ∈ document.tree.toList, block.FitsWords
  problems : ∀ problem ∈ document.problems, problem.position.FitsWords

namespace Exchange

private theorem readsBack_word {word : Nat} (small : word < wordLimit) :
    ReadsBack readWord (.number word) word := by
  refine ⟨nofun, fun value' trims => ?_⟩
  cases trims
  exact if_pos small

private theorem readsBack_text (text : Text) : ReadsBack readText (.text text) text := by
  refine ⟨nofun, fun value' trims => ?_⟩
  cases trims
  rfl

private theorem readsBack_flag (flag : Bool) : ReadsBack readFlag (.flag flag) flag := by
  refine ⟨nofun, fun value' trims => ?_⟩
  cases trims
  rfl

private theorem readsBack_name
    {α : Type}
    {all : List α}
    {nameOf : α → String}
    {named : α}
    (found : all.find? (fun other => nameOf other = nameOf named) = some named) :
    ReadsBack (readNamed all nameOf) (writeName (nameOf named)) named := by
  refine ⟨nofun, fun value' trims => ?_⟩
  cases trims
  simpa only [writeName, readNamed, String.toList_inj] using found

private theorem readsBack_keyword (keyword : MarkerKeyword) :
    ReadsBack (readNamed MarkerKeyword.all MarkerKeyword.name) (writeName keyword.name)
      keyword := by
  apply readsBack_name
  cases keyword <;> decide

private theorem readsBack_form (form : MarkerForm) :
    ReadsBack readForm (writeName form.name) form := by
  apply readsBack_name
  cases form <;> decide

private theorem readsBack_error (error : BlockError) :
    ReadsBack readError (writeName error.name) error := by
  apply readsBack_name
  cases error <;> decide

private theorem readsBack_point {point : Point} (words : point.FitsWords) :
    ReadsBack readPoint (writePoint point) point := by
  apply ReadsBack.of_fields (by simp)
  rintro fields ⟨_, remains⟩
  simp only [List.forall_mem_cons] at remains
  obtain ⟨line, column, offset, _⟩ := remains
  have lineRead := line.required (readsBack_word words.line_lt)
  have columnRead := column.required (readsBack_word words.column_lt)
  have offsetRead := offset.required (readsBack_word words.offset_lt)
  simp [readPoint, Value.fields?, lineRead, columnRead, offsetRead]

private theorem readsBack_position {position : Position} (words : position.FitsWords) :
    ReadsBack readPosition (writePosition position) position := by
  apply ReadsBack.of_fields (by simp)
  rintro fields ⟨_, remains⟩
  simp only [List.forall_mem_cons] at remains
  obtain ⟨start, stop, _⟩ := remains
  have startRead := start.required (readsBack_point words.start)
  have stopRead := stop.required (readsBack_point words.stop)
  simp [readPosition, Value.fields?, startRead, stopRead]

private theorem readsBack_span {span : Span} (words : span.FitsWords) :
    ReadsBack readSpan (writeSpan span) span := by
  apply ReadsBack.of_fields (by simp)
  intro fields fieldsRemain
  -- spans are the only records that are asked for fields of other names
  have exactEq := fieldsRemain.exactFields?
  have remains := fieldsRemain.remains
  simp only [List.forall_mem_cons] at remains
  obtain ⟨start, stop, _⟩ := remains
  have startRead := start.required (readsBack_word words.start_lt)
  have stopRead := stop.required (readsBack_word words.stop_lt)
  simp only [List.map_cons, List.map_nil] at exactEq
  simp [readSpan, exactEq, Value.fields?, startRead, stopRead]

private theorem readsBack_tag {tag : LocationTag} (words : tag.FitsWords) :
    ReadsBack readTag (writeTag tag) tag := by
  apply ReadsBack.of_fields (by simp)
  rintro fields ⟨_, remains⟩
  simp only [List.forall_mem_cons] at remains
  obtain ⟨filePath, line, _⟩ := remains
  have filePathRead := filePath.nullable fun path _ => readsBack_text path
  have lineRead := line.required (readsBack_word words.line_lt)
  simp [readTag, Value.fields?, filePathRead, lineRead]

private theorem readsBack_marker {marker : Marker} (words : marker.FitsWords) :
    ReadsBack readMarker (writeMarker marker) marker := by
  apply ReadsBack.of_fields (by simp)
  rintro fields ⟨_, remains⟩
  simp only [List.forall_mem_cons] at remains
  obtain ⟨keyword, form, tag, body, position, tagSpan, insertOffset, malformedTag, _⟩ := remains
  have keywordRead := keyword.required (readsBack_keyword marker.keyword)
  have formRead := form.required (readsBack_form marker.form)
  have tagRead := tag.nullable fun tag isTag => readsBack_tag (words.tag tag isTag)
  have bodyRead := body.nullable fun body _ => readsBack_text body
  have positionRead := position.required (readsBack_position words.position)
  have tagSpanRead := tagSpan.nullable fun span isSpan =>
    readsBack_span (words.tagSpan span isSpan)
  have insertOffsetRead := insertOffset.required (readsBack_word words.insertOffset_lt)
  have malformedTagRead := malformedTag.required (readsBack_flag marker.malformedTag)
  simp [readMarker, Value.fields?, keywordRead, formRead, tagRead, bodyRead, positionRead,
    tagSpanRead, insertOffsetRead, malformedTagRead]

private theorem readsBack_problem {problem : ParseProblem} (words : problem.position.FitsWords) :
    ReadsBack readProblem (writeProblem problem) problem := by
  apply ReadsBack.of_fields (by simp)
  rintro fields ⟨_, remains⟩
  simp only [List.forall_mem_cons] at remains
  obtain ⟨kind, form, position, _⟩ := remains
  have kindRead := kind.required (readsBack_error problem.kind)
  have formRead := form.required (readsBack_form problem.form)
  have positionRead := position.required (readsBack_position words)
  simp [readProblem, Value.fields?, kindRead, formRead, positionRead]

/-- A block is read, and its children are left as what they trim to. -/
theorem readBlockHead_of_trimsTo
    {block : Block}
    {children : List Value}
    {value' : Value}
    (words : block.FitsWords)
    (trims : TrimsTo (writeBlock block children) value') :
    ∃ items,
      readBlockHead value' = some (block, items) ∧ List.Forall₂ TrimsTo children items := by
  obtain ⟨kept, fields, rfl, omits, reordered⟩ := trims.exists_fields
  obtain ⟨_, remains⟩ := omits.fieldsRemain reordered (by simp)
  simp only [List.forall_mem_cons] at remains
  obtain ⟨start, stop, childList, error, _⟩ := remains
  have startRead := start.nullable fun marker isStart =>
    readsBack_marker (words.start marker isStart)
  have stopRead := stop.nullable fun marker isStop =>
    readsBack_marker (words.stop marker isStop)
  have errorRead := error.nullable fun error _ => readsBack_error error
  generalize foundEq : lookup "children" fields = found at childList
  cases childList with
  | kept listTrims =>
      obtain ⟨items, rfl, trimmed⟩ := listTrims.exists_items
      refine ⟨items, ?_, trimmed⟩
      simp [readBlockHead, Value.fields?, foundEq, Value.items?, startRead, stopRead, errorRead]
  | leftOut isNull => exact Value.noConfusion isNull

private theorem readForest_cons
    {value : Value}
    {rest items : List Value}
    {block : Block}
    {children siblings : BlockForest}
    (head : readBlockHead value = some (block, items))
    (childrenRead : readForest items = some children)
    (siblingsRead : readForest rest = some siblings) :
    readForest (value :: rest) = some (.node block children siblings) := by
  rw [readForest]
  split
  next block' items' head' =>
    obtain ⟨rfl, rfl⟩ := Prod.mk.inj (Option.some.inj (head.symm.trans head'))
    rw [childrenRead, siblingsRead]
    rfl
  next head' => simp [head] at head'

private theorem readForest_of_trimsTo
    {forest : BlockForest}
    {items : List Value}
    (words : ∀ block ∈ forest.toList, block.FitsWords)
    (trimmed : List.Forall₂ TrimsTo (writeForest forest) items) :
    readForest items = some forest := by
  induction forest generalizing items with
  | nil =>
      obtain rfl := List.forall₂_nil_left_iff.1 trimmed
      rw [readForest]
  | node block children siblings childrenHypothesis siblingsHypothesis =>
      simp only [Forest.toList, List.mem_cons, List.mem_append] at words
      obtain ⟨value', rest, blockTrims, restTrimmed, rfl⟩ :=
        List.forall₂_cons_left_iff.1 trimmed
      obtain ⟨childItems, head, childrenTrimmed⟩ :=
        readBlockHead_of_trimsTo (words block (Or.inl rfl)) blockTrims
      have childrenRead := childrenHypothesis
        (fun inner member => words inner (Or.inr (Or.inl member))) childrenTrimmed
      have siblingsRead := siblingsHypothesis
        (fun other member => words other (Or.inr (Or.inr member))) restTrimmed
      exact readForest_cons head childrenRead siblingsRead

private theorem readsBack_blocks
    {forest : BlockForest}
    (words : ∀ block ∈ forest.toList, block.FitsWords) :
    ReadsBack readBlocks (.list (writeForest forest)) forest := by
  refine ⟨nofun, fun value' trims => ?_⟩
  obtain ⟨items, rfl, trimmed⟩ := trims.exists_items
  exact readForest_of_trimsTo words trimmed

private theorem readsBack_document {document : Document} (words : document.FitsWords) :
    ReadsBack readDocument (writeDocument document) document := by
  apply ReadsBack.of_fields (by simp)
  rintro fields ⟨_, remains⟩
  simp only [List.forall_mem_cons] at remains
  obtain ⟨filePath, tree, problems, _⟩ := remains
  have filePathRead := filePath.required (readsBack_text document.filePath)
  have treeRead := tree.required (readsBack_blocks words.blocks)
  have problemsRead := problems.required <| ReadsBack.list fun problem member =>
    readsBack_problem (words.problems problem member)
  simp [readDocument, Value.fields?, filePathRead, treeRead, problemsRead]

/-! ## Numbers that are read -/

section Reading

variable {α : Type} {read : Value → Option α} {P : α → Prop}

private theorem of_required
    (reading : ∀ value result, read value = some result → P result)
    {field : Option Value}
    {result : α}
    (found : required read field = some result) :
    P result := by
  obtain ⟨value, _, reads⟩ := Option.bind_eq_some_iff.1 found
  exact reading value result reads

private theorem of_nullable
    (reading : ∀ value result, read value = some result → P result)
    {field : Option Value}
    {result : Option α}
    (found : nullable read field = some result) :
    ∀ item ∈ result, P item := by
  rintro item rfl
  rw [nullable] at found
  by_cases isNull : field.getD .null = .null
  · simp [isNull, readNullable] at found
  · rw [readNullable_of_ne_null isNull] at found
    obtain ⟨_, reads, same⟩ := Option.map_eq_some_iff.1 found
    exact Option.some.inj same ▸ reading _ _ reads

private theorem of_readList
    (reading : ∀ value result, read value = some result → P result)
    (value : Value)
    (results : List α)
    (reads : readList read value = some results) :
    ∀ result ∈ results, P result := by
  obtain ⟨items, -, itemsRead⟩ := Option.bind_eq_some_iff.1 reads
  rw [mapM_eq_some_iff] at itemsRead
  clear reads
  induction itemsRead with
  | nil => simp
  | cons reads _ inductionHypothesis =>
      exact List.forall_mem_cons.2 ⟨reading _ _ reads, inductionHypothesis⟩

end Reading

private theorem lt_of_readWord (value : Value) (word : Nat) (reads : readWord value = some word) :
    word < wordLimit := by
  unfold readWord at reads
  split at reads
  next =>
    split at reads
    next small => exact Option.some.inj reads ▸ small
    next => simp at reads
  next => simp at reads

private theorem fitsWords_of_readPoint
    (value : Value)
    (point : Point)
    (reads : readPoint value = some point) :
    point.FitsWords := by
  unfold readPoint at reads
  split at reads
  next =>
    simp only [Option.bind_eq_bind, Option.bind_eq_some_iff, Option.some.injEq] at reads
    obtain ⟨_, line, _, column, _, offset, rfl⟩ := reads
    exact
      ⟨of_required lt_of_readWord line, of_required lt_of_readWord column,
        of_required lt_of_readWord offset⟩
  next => simp at reads

private theorem fitsWords_of_readPosition
    (value : Value)
    (position : Position)
    (reads : readPosition value = some position) :
    position.FitsWords := by
  unfold readPosition at reads
  split at reads
  next =>
    simp only [Option.bind_eq_bind, Option.bind_eq_some_iff, Option.some.injEq] at reads
    obtain ⟨_, start, _, stop, rfl⟩ := reads
    exact ⟨of_required fitsWords_of_readPoint start, of_required fitsWords_of_readPoint stop⟩
  next => simp at reads

private theorem fitsWords_of_readSpan
    (value : Value)
    (span : Span)
    (reads : readSpan value = some span) :
    span.FitsWords := by
  unfold readSpan at reads
  split at reads
  next =>
    simp only [Option.bind_eq_bind, Option.bind_eq_some_iff, Option.some.injEq] at reads
    obtain ⟨_, start, _, stop, rfl⟩ := reads
    exact ⟨of_required lt_of_readWord start, of_required lt_of_readWord stop⟩
  next => simp at reads

private theorem fitsWords_of_readTag
    (value : Value)
    (tag : LocationTag)
    (reads : readTag value = some tag) :
    tag.FitsWords := by
  unfold readTag at reads
  split at reads
  next =>
    simp only [Option.bind_eq_bind, Option.bind_eq_some_iff, Option.some.injEq] at reads
    obtain ⟨_, _, _, line, rfl⟩ := reads
    exact ⟨of_required lt_of_readWord line⟩
  next => simp at reads

private theorem fitsWords_of_readMarker
    (value : Value)
    (marker : Marker)
    (reads : readMarker value = some marker) :
    marker.FitsWords := by
  unfold readMarker at reads
  split at reads
  next =>
    simp only [Option.bind_eq_bind, Option.bind_eq_some_iff, Option.some.injEq] at reads
    obtain ⟨_, _, _, _, _, tag, _, _, _, position, _, tagSpan, _, insertOffset, _, _, rfl⟩ := reads
    exact
      { tag := of_nullable fitsWords_of_readTag tag
        position := of_required fitsWords_of_readPosition position
        tagSpan := of_nullable fitsWords_of_readSpan tagSpan
        insertOffset_lt := of_required lt_of_readWord insertOffset }
  next => simp at reads

private theorem fitsWords_of_readBlockHead
    {value : Value}
    {block : Block}
    {items : List Value}
    (reads : readBlockHead value = some (block, items)) :
    block.FitsWords := by
  unfold readBlockHead at reads
  split at reads
  next =>
    simp only [Option.bind_eq_bind, Option.bind_eq_some_iff, Option.some.injEq,
      Prod.mk.injEq] at reads
    obtain ⟨_, _, _, start, _, stop, _, _, rfl, _⟩ := reads
    exact
      ⟨of_nullable fitsWords_of_readMarker start, of_nullable fitsWords_of_readMarker stop⟩
  next => simp at reads

private theorem fitsWords_of_readForest
    {values : List Value}
    {forest : BlockForest}
    (reads : readForest values = some forest) :
    ∀ block ∈ forest.toList, block.FitsWords := by
  fun_induction readForest values generalizing forest with
  | case1 =>
      obtain rfl := Option.some.inj reads
      simp [Forest.toList]
  | case2 value rest block items head childrenHypothesis siblingsHypothesis =>
      simp only [Option.bind_eq_bind, Option.bind_eq_some_iff, Option.some.injEq] at reads
      obtain ⟨children, childrenRead, siblings, siblingsRead, rfl⟩ := reads
      intro inner member
      simp only [Forest.toList, List.mem_cons, List.mem_append] at member
      rcases member with rfl | inChildren | inSiblings
      · exact fitsWords_of_readBlockHead head
      · exact childrenHypothesis childrenRead inner inChildren
      · exact siblingsHypothesis siblingsRead inner inSiblings
  | case3 => simp at reads

private theorem fitsWords_of_readBlocks
    (value : Value)
    (forest : BlockForest)
    (reads : readBlocks value = some forest) :
    ∀ block ∈ forest.toList, block.FitsWords := by
  obtain ⟨items, _, itemsRead⟩ := Option.bind_eq_some_iff.1 reads
  exact fitsWords_of_readForest itemsRead

private theorem fitsWords_of_readProblem
    (value : Value)
    (problem : ParseProblem)
    (reads : readProblem value = some problem) :
    problem.position.FitsWords := by
  unfold readProblem at reads
  split at reads
  next =>
    simp only [Option.bind_eq_bind, Option.bind_eq_some_iff, Option.some.injEq] at reads
    obtain ⟨_, _, _, _, _, position, rfl⟩ := reads
    exact of_required fitsWords_of_readPosition position
  next => simp at reads

private theorem fitsWords_of_readDocument
    {value : Value}
    {document : Document}
    (reads : readDocument value = some document) :
    document.FitsWords := by
  unfold readDocument at reads
  split at reads
  next =>
    simp only [Option.bind_eq_bind, Option.bind_eq_some_iff, Option.some.injEq] at reads
    obtain ⟨_, _, _, tree, _, problems, rfl⟩ := reads
    exact
      ⟨of_required fitsWords_of_readBlocks tree,
        of_required (of_readList fitsWords_of_readProblem) problems⟩
  next => simp at reads

/-- A document of which the numbers are words is read from what is written for it, and
so it is when null fields are left out and fields are put in another order. No other
documents can be read. -/
theorem document_comes_back :
    (∀ document : Document, document.FitsWords →
        readDocument (writeDocument document) = some document ∧
          ∀ value, TrimsTo (writeDocument document) value → readDocument value = some document) ∧
      ∀ value document, readDocument value = some document → document.FitsWords := by
  refine ⟨fun document words => ?_, fun value document reads => fitsWords_of_readDocument reads⟩
  have readsBack := readsBack_document words
  exact ⟨readsBack.reads _ (.same _), fun value trims => readsBack.reads value trims⟩

/-- A block that has no start around one that has nothing at all. -/
def startlessDocument : Document where
  filePath := "a.cs".toList
  tree :=
    .single
      { start := none
        stop := some {
          keyword := .macroEnd
          form := .region
          tag := some ⟨none, wordLimit - 1⟩
          body := none
          position := ⟨⟨1, 1, 0⟩, ⟨1, 11, 10⟩⟩
          tagSpan := none
          insertOffset := 10
          malformedTag := false }
        error := some .outOfOrder }
      (.single ⟨none, none, none⟩ .nil)
  problems := []

/-- The same without its null fields, and with its tree at the end. -/
def startlessValue : Value :=
  .record [
    ("file_path", .text "a.cs".toList),
    ("diagnostics", .list []),
    ("tree", .list [
      .record [
        ("end", .record [
          ("keyword", .text "MacroEnd".toList),
          ("syntax", .text "Region".toList),
          ("location_tag", .record [("line_identifier", .number (wordLimit - 1))]),
          ("position", writePosition ⟨⟨1, 1, 0⟩, ⟨1, 11, 10⟩⟩),
          ("insert_offset", .number 10),
          ("malformed_location_tag", .flag false)]),
        ("children", .list [.record [("children", .list [])]]),
        ("error", .text "OutOfOrder".toList)]])]

private theorem fitsWords_startlessDocument : startlessDocument.FitsWords := by
  have largest : wordLimit - 1 < wordLimit := by decide
  have start : Point.FitsWords ⟨1, 1, 0⟩ := ⟨by decide, by decide, by decide⟩
  have stop : Point.FitsWords ⟨1, 11, 10⟩ := ⟨by decide, by decide, by decide⟩
  refine ⟨?_, List.forall_mem_nil _⟩
  simp only [startlessDocument, Forest.single, Forest.toList, List.append_nil,
    List.forall_mem_cons]
  refine ⟨⟨by simp, ?_⟩, ⟨by simp, by simp⟩, List.forall_mem_nil _⟩
  intro marker isStop
  obtain rfl := Option.some.inj isStop
  refine ⟨?_, ⟨start, stop⟩, by simp, by decide⟩
  intro tag isTag
  obtain rfl := Option.some.inj isTag
  exact ⟨largest⟩

private theorem trimsTo_startlessValue :
    TrimsTo (writeDocument startlessDocument) startlessValue := by
  have tagTrims :
      TrimsTo (writeTag ⟨none, wordLimit - 1⟩)
        (.record [("line_identifier", .number (wordLimit - 1))]) :=
    .record (.leaveOut (.keep (.same _) .nil)) (.refl _)
  have innerTrims :
      TrimsTo (writeBlock ⟨none, none, none⟩ []) (.record [("children", .list [])]) :=
    .record (.leaveOut (.leaveOut (.keep (.same _) (.leaveOut .nil)))) (.refl _)
  refine .record (.keep (.same _) (.keep (.list (.cons ?_ .nil)) (.keep (.same _) .nil)))
    (.cons _ (.swap _ _ _))
  refine .record
    (.leaveOut (.keep ?_ (.keep (.list (.cons innerTrims .nil)) (.keep (.same _) .nil)))) (.refl _)
  exact .record
    (.keep (.same _) (.keep (.same _) (.keep tagTrims (.leaveOut (.keep (.same _) (.leaveOut
      (.keep (.same _) (.keep (.same _) .nil)))))))) (.refl _)

theorem document_comes_back_startlessDocument :
    startlessDocument.FitsWords ∧
      readDocument (writeDocument startlessDocument) = some startlessDocument ∧
      TrimsTo (writeDocument startlessDocument) startlessValue ∧
      readDocument startlessValue = some startlessDocument := by
  obtain ⟨comesBack, _⟩ := document_comes_back
  obtain ⟨untrimmed, trimmed⟩ := comesBack startlessDocument fitsWords_startlessDocument
  exact
    ⟨fitsWords_startlessDocument, untrimmed, trimsTo_startlessValue,
      trimmed startlessValue trimsTo_startlessValue⟩

end Exchange

end MacroRegions

import MacroRegions.Proofs.Nesting.Account

/-!
What strictness adds.

When malformed location tags are reported, the run over the markers is the one without
these reports, but that a block with such a marker has an error if it has no other.
Strictness takes no report away, and adds one for each start with a malformed tag and
for each such end that closes a block.
-/

namespace MacroRegions

/-- The error of a block with the given markers when malformed tags are reported.
An error that is there without them stays. -/
def BlockError.strictly (error : Option BlockError) (markers : List Marker) :
    Option BlockError :=
  error <|> if markers.any (·.malformedTag) then some .malformedLocationTag else none

def Block.strictly (block : Block) : Block :=
  { block with error := BlockError.strictly block.error block.markers }

def BlockForest.strictly (forest : BlockForest) : BlockForest :=
  forest.map Block.strictly

def OpenBlock.strictly (block : OpenBlock) : OpenBlock :=
  ⟨block.start, BlockError.strictly block.error [block.start], block.children.strictly⟩

def OpenEntry.strictly : OpenEntry → OpenEntry
  | plainRegion => plainRegion
  | block opened => block opened.strictly

@[simp]
theorem BlockForest.strictly_append (left right : BlockForest) :
    BlockForest.strictly (left ++ right) = left.strictly ++ right.strictly :=
  Forest.map_append _ left right

@[simp]
theorem OpenEntry.family_strictly (entry : OpenEntry) : entry.strictly.family = entry.family := by
  cases entry <;> rfl

@[simp]
theorem OpenEntry.isNone_block?_strictly (entry : OpenEntry) :
    entry.strictly.block?.isNone = entry.block?.isNone := by
  cases entry <;> rfl

private theorem OpenBlock.strictly_finish
    (block : OpenBlock)
    (stop : Option Marker)
    (error : Option BlockError)
    (more : BlockForest) :
    (block.finish stop error more).strictly =
      block.strictly.finish stop (BlockError.strictly error (block.start :: stop.toList))
        more.strictly := by
  simp [OpenBlock.finish, BlockForest.strictly, OpenBlock.strictly, Forest.single, Forest.map,
    Forest.map_append, Block.strictly, Block.markers]

namespace Nesting

def strictly (nesting : Nesting) : Nesting :=
  ⟨nesting.entries.map OpenEntry.strictly, nesting.finished.strictly⟩

private theorem strictly_attach
    (done : BlockForest)
    (entries : List OpenEntry)
    (finished : BlockForest) :
    (attach done entries finished).strictly =
      attach done.strictly (entries.map OpenEntry.strictly) finished.strictly := by
  induction entries with
  | nil => simp [attach, strictly]
  | cons entry rest inductionHypothesis =>
      cases entry with
      | plainRegion =>
          simp only [List.map_cons, OpenEntry.strictly, attach, ← inductionHypothesis]
          rfl
      | block opened => simp [attach, strictly, OpenEntry.strictly, OpenBlock.strictly]

/-- A block that is ended without an end marker has an error that stays. -/
theorem strictly_collapse
    (error : BlockError)
    (innermost : BlockForest)
    (entries : List OpenEntry) :
    (collapse error innermost entries).strictly =
      collapse error innermost.strictly (entries.map OpenEntry.strictly) := by
  induction entries generalizing innermost with
  | nil => rfl
  | cons entry rest inductionHypothesis =>
      cases entry with
      | plainRegion => exact inductionHypothesis innermost
      | block opened =>
          rw [collapse, inductionHypothesis, OpenBlock.strictly_finish]
          rfl

private theorem report_strictly (kind : BlockError) (entries : List OpenEntry) :
    report kind (entries.map OpenEntry.strictly) = report kind entries := by
  have blocksEq :
      (entries.map OpenEntry.strictly).filterMap OpenEntry.block? =
        (entries.filterMap OpenEntry.block?).map OpenBlock.strictly := by
    rw [List.filterMap_map, List.map_filterMap]
    apply List.filterMap_congr
    intro entry _
    cases entry <;> rfl
  rw [report, blocksEq, ← List.map_reverse, List.map_map, report]
  rfl

private theorem filter_plainRegions_strictly (entries : List OpenEntry) :
    (entries.map OpenEntry.strictly).filter (·.block?.isNone) =
      (entries.filter (·.block?.isNone)).map OpenEntry.strictly := by
  rw [List.filter_map]
  congr 1
  apply List.filter_congr
  intro entry _
  exact entry.isNone_block?_strictly

/-- The error of an open block is told by its start, that of a finished one by its
end too. -/
theorem errorWith_strictly (error : Option BlockError) (start stop : Marker) :
    errorWith (BlockError.strictly error [start]) (tagProblem true stop) =
      BlockError.strictly (errorWith error (tagProblem false stop)) [start, stop] := by
  cases error with
  | some kind => rfl
  | none =>
      cases startCase : start.malformedTag <;> cases stopCase : stop.malformedTag <;>
        simp [errorWith, BlockError.strictly, tagProblem, ParseProblem.ofMarker, startCase,
          stopCase]

private theorem errorWith_tagProblem (start : Marker) :
    errorWith none (tagProblem true start) = BlockError.strictly none [start] := by
  cases startCase : start.malformedTag <;>
    simp [errorWith, BlockError.strictly, tagProblem, ParseProblem.ofMarker, startCase]

private theorem strictly_closed (stop : Marker) (inner : List OpenEntry) (block : OpenBlock) :
    (closed false stop inner block).strictly =
      closed true stop (inner.map OpenEntry.strictly) block.strictly := by
  rw [closed, OpenBlock.strictly_finish, strictly_collapse, Option.toList_some,
    ← errorWith_strictly]
  rfl

/-- What strictness reports of an end marker: nothing, unless it closes a block. -/
def stopProblems (nesting : Nesting) (stop : Marker) : List ParseProblem :=
  match nesting.openersOf stop.family with
  | some _ :: _ => tagProblem true stop
  | _ => []

def tagProblems (nesting : Nesting) : PairingItem → List ParseProblem
  | .plainRegion => []
  | .marker found =>
    match found.keyword with
    | .macroStart => tagProblem true found
    | .macroEnd => nesting.stopProblems found

private theorem apart_strictly
    {family : MarkerFamily}
    {entries : List OpenEntry}
    (apart : ∀ entry ∈ entries, entry.family ≠ family) :
    ∀ entry ∈ entries.map OpenEntry.strictly, entry.family ≠ family := by
  intro entry member
  obtain ⟨plain, plainMember, rfl⟩ := List.mem_map.1 member
  rw [OpenEntry.family_strictly]
  exact apart plain plainMember

private theorem close_strictly (nesting : Nesting) (stop : Marker) :
    nesting.strictly.close true stop =
      ((nesting.close false stop).1.strictly,
        (nesting.close false stop).2 ++ nesting.stopProblems stop) := by
  obtain ⟨entries, finished⟩ := nesting
  rcases exists_innermost_or stop.family entries with apart | ⟨inner, entry, outer, rfl, apart, own⟩
  · have noOpener : openersOf stop.family ⟨entries, finished⟩ = [] := openersOf_eq_nil apart
    rw [close_of_apart apart, strictly, close_of_apart (apart_strictly apart)]
    simp only [stopProblems, noOpener, List.append_nil]
  · have opener :
        openersOf stop.family ⟨inner ++ entry :: outer, finished⟩ =
          entry.opener ::
            (outer.map OpenEntry.opener).filter (openerFamily · = stop.family) :=
      openersOf_eq rfl apart own
    cases entry with
    | plainRegion =>
        rw [close_of_plainRegion apart own, strictly, List.map_append, List.map_cons,
          OpenEntry.strictly, close_of_plainRegion (apart_strictly apart) own]
        simp only [stopProblems, opener, OpenEntry.opener, strictly, List.map_append,
          List.append_nil]
    | block block =>
        have ownStrictly : (OpenEntry.block block.strictly).family = stop.family := own
        have attached :=
          strictly_attach (closed false stop inner block) outer finished
        rw [strictly_closed] at attached
        have silent : tagProblem false stop = [] := rfl
        rw [close_of_block apart own, strictly, List.map_append, List.map_cons,
          OpenEntry.strictly, close_of_block (apart_strictly apart) ownStrictly, ← attached,
          report_strictly, filter_plainRegions_strictly]
        simp only [stopProblems, opener, OpenEntry.opener, strictly, List.map_append, silent,
          List.append_nil]

private theorem step_strictly (nesting : Nesting) (item : PairingItem) :
    nesting.strictly.step true item =
      ((nesting.step false item).1.strictly,
        (nesting.step false item).2 ++ nesting.tagProblems item) := by
  cases item with
  | plainRegion => rfl
  | marker found =>
      cases keywordEq : found.keyword with
      | macroStart =>
          simp only [step, keywordEq, openBlock, tagProblems, errorWith_tagProblem]
          rfl
      | macroEnd =>
          simp only [step, keywordEq, tagProblems]
          exact close_strictly nesting found

theorem after_strictly (items : List PairingItem) :
    after true items = (after false items).strictly := by
  refine
    PairingItem.takingInduction
      (P := fun taken => after true taken = (after false taken).strictly) items rfl ?_
  intro taken item back _ same
  rw [after_concat, after_concat, same, step_strictly]

private theorem finish_strictly (nesting : Nesting) :
    nesting.strictly.finish = (nesting.finish.1.strictly, nesting.finish.2) := by
  rw [finish, finish, BlockForest.strictly_append, strictly_collapse, strictly, report_strictly]
  rfl

/-! ## Reports -/

/-- Without strictness no malformed tag is reported. -/
theorem kind_ne_of_mem_step
    {nesting : Nesting}
    {item : PairingItem}
    {problem : ParseProblem}
    (member : problem ∈ (nesting.step false item).2) :
    problem.kind ≠ .malformedLocationTag := by
  cases item with
  | plainRegion => simp [step] at member
  | marker found =>
      cases keywordEq : found.keyword with
      | macroStart =>
          simp [step, keywordEq, openBlock, tagProblem] at member
      | macroEnd =>
          simp only [step, keywordEq] at member
          rcases close_cases false nesting found with
            ⟨_, closed⟩ | ⟨_, _, _, _, _, closed⟩ | ⟨inner, _, _, _, _, _, closed⟩
          · rw [closed, List.mem_singleton] at member
            rw [member]
            exact BlockError.noConfusion
          · rw [closed] at member
            simp at member
          · rw [closed] at member
            have reported : problem ∈ report .outOfOrder inner := by
              simpa [tagProblem] using member
            rw [kind_report reported]
            exact BlockError.noConfusion

private theorem kind_of_mem_tagProblems
    {nesting : Nesting}
    {item : PairingItem}
    {problem : ParseProblem}
    (member : problem ∈ nesting.tagProblems item) :
    problem.kind = .malformedLocationTag := by
  cases item with
  | plainRegion => simp [tagProblems] at member
  | marker found =>
      rw [tagProblems] at member
      split at member
      · exact kind_tagProblem member
      · rw [stopProblems] at member
        split at member
        · exact kind_tagProblem member
        · simp at member

private theorem problemsOf_strictly_concat (taken : List PairingItem) (item : PairingItem) :
    problemsOf true (taken ++ [item]) =
      problemsOf true taken ++
        (((after false taken).step false item).2 ++ (after false taken).tagProblems item) := by
  rw [problemsOf_concat, after_strictly, step_strictly]

/-- Strictness takes no report away. -/
theorem filter_problemsOf_strictly (items : List PairingItem) :
    (problemsOf true items).filter (·.kind ≠ .malformedLocationTag) = problemsOf false items := by
  refine
    PairingItem.takingInduction
      (P := fun taken =>
        (problemsOf true taken).filter (·.kind ≠ .malformedLocationTag) =
          problemsOf false taken)
      items rfl ?_
  intro taken item back _ same
  have kept :
      ((after false taken).step false item).2.filter (·.kind ≠ .malformedLocationTag) =
        ((after false taken).step false item).2 := by
    rw [List.filter_eq_self]
    intro problem member
    exact decide_eq_true (kind_ne_of_mem_step member)
  have removed :
      ((after false taken).tagProblems item).filter (·.kind ≠ .malformedLocationTag) = [] := by
    rw [List.filter_eq_nil_iff]
    intro problem member
    simpa using kind_of_mem_tagProblems member
  rw [problemsOf_strictly_concat, List.filter_append, List.filter_append, same, kept, removed,
    List.append_nil, problemsOf_concat]

/-- Whether strictness reports a marker, told by the end markers that close blocks. -/
def isReported (stops : List Marker) (found : Marker) : Bool :=
  found.malformedTag && (found.isStart || stops.contains found)

private theorem tagProblem_eq_of_isReported
    {stops : List Marker}
    {found : Marker}
    (reported : isReported stops found = found.malformedTag) :
    tagProblem true found =
      ([found].filter (isReported stops)).map (.ofMarker .malformedLocationTag) := by
  cases malformed : found.malformedTag <;> rw [malformed] at reported <;>
    simp [tagProblem, malformed, reported]

private theorem stopProblems_eq
    {stops : List Marker}
    {nesting : Nesting}
    {stop : Marker}
    (isEnd : stop.keyword = .macroEnd)
    (closes : stop ∈ stops ↔ ∃ start outer, nesting.openersOf stop.family = some start :: outer) :
    nesting.stopProblems stop =
      ([stop].filter (isReported stops)).map (.ofMarker .malformedLocationTag) := by
  have notStart : stop.isStart = false := Marker.isStart_eq_false_iff.2 isEnd
  by_cases closesBlock : stop ∈ stops
  · obtain ⟨start, outer, openers⟩ := closes.1 closesBlock
    have reported : isReported stops stop = stop.malformedTag := by
      simp [isReported, closesBlock]
    rw [stopProblems, openers]
    exact tagProblem_eq_of_isReported reported
  · have silent : isReported stops stop = false := by
      simp [isReported, notStart, closesBlock]
    rw [List.filter_cons_of_neg (by simp [silent]), stopProblems]
    split
    · next start outer openers => exact absurd (closes.2 ⟨start, outer, openers⟩) closesBlock
    · rfl

/-- What strictness reports of an item is told by the end markers that close blocks. -/
theorem tagProblems_eq
    {stops : List Marker}
    {nesting : Nesting}
    {item : PairingItem}
    (closes : ∀ stop, item = .marker stop → stop.keyword = .macroEnd →
      (stop ∈ stops ↔ ∃ start outer, nesting.openersOf stop.family = some start :: outer)) :
    nesting.tagProblems item =
      ((PairingItem.markers [item]).filter (isReported stops)).map
        (.ofMarker .malformedLocationTag) := by
  cases item with
  | plainRegion => rfl
  | marker found =>
      have isFound : PairingItem.markers [.marker found] = [found] := rfl
      rw [isFound]
      cases keywordEq : found.keyword with
      | macroStart =>
          have reported : isReported stops found = found.malformedTag := by
            simp [isReported, Marker.isStart, keywordEq]
          simp only [tagProblems, keywordEq]
          exact tagProblem_eq_of_isReported reported
      | macroEnd =>
          simp only [tagProblems, keywordEq]
          exact stopProblems_eq keywordEq (closes found rfl keywordEq)

/-- Strictness reports the starts with malformed tags, and the ends with such tags
that close a block, in their order. -/
theorem filter_malformed_problemsOf
    {items : List PairingItem}
    {stops : List Marker}
    (inOrder : PairingItem.InOrder items)
    (closes : ∀ stop,
      stop ∈ stops ↔ ∃ start outer, Meets false items stop (some start :: outer)) :
    (problemsOf true items).filter (·.kind = .malformedLocationTag) =
      ((PairingItem.markers items).filter (isReported stops)).map
        (.ofMarker .malformedLocationTag) := by
  refine
    PairingItem.takingInduction
      (P := fun taken =>
        (problemsOf true taken).filter (·.kind = .malformedLocationTag) =
          ((PairingItem.markers taken).filter (isReported stops)).map
            (.ofMarker .malformedLocationTag))
      items rfl ?_
  intro taken item back split same
  have lenient :
      ((after false taken).step false item).2.filter (·.kind = .malformedLocationTag) = [] := by
    rw [List.filter_eq_nil_iff]
    intro problem member
    simpa using kind_ne_of_mem_step member
  have reported :
      ((after false taken).tagProblems item).filter (·.kind = .malformedLocationTag) =
        (after false taken).tagProblems item := by
    rw [List.filter_eq_self]
    intro problem member
    exact decide_eq_true (kind_of_mem_tagProblems member)
  have closesHere : ∀ stop, item = .marker stop → stop.keyword = .macroEnd →
      (stop ∈ stops ↔
        ∃ start outer, (after false taken).openersOf stop.family = some start :: outer) := by
    intro stop isStop isEnd
    have meets : Meets false items stop ((after false taken).openersOf stop.family) :=
      ⟨taken, back, by rw [← isStop, split], isEnd, rfl⟩
    rw [closes]
    constructor
    · intro closesBlock
      obtain ⟨start, outer, meetsStart⟩ := closesBlock
      exact ⟨start, outer, meets.unique inOrder meetsStart⟩
    · intro closesBlock
      obtain ⟨start, outer, openers⟩ := closesBlock
      exact ⟨start, outer, openers ▸ meets⟩
  rw [problemsOf_strictly_concat, List.filter_append, List.filter_append, same, lenient, reported,
    tagProblems_eq closesHere, PairingItem.markers_append, List.filter_append, List.map_append,
    List.nil_append]

end Nesting

namespace Document

variable {source : Source} {trivia : List Trivia} {filePath : Text}

def stops (document : Document) : List Marker :=
  document.blocks.filterMap (·.stop)

private theorem tree_strictly (filePath : Text) (source : Source) (trivia : List Trivia) :
    (ofTrivia filePath source trivia ⟨true⟩).tree =
      (ofTrivia filePath source trivia ⟨false⟩).tree.strictly := by
  have finished := congrArg Prod.fst
    (Nesting.finish_strictly (Nesting.after false (pairingItems source trivia)))
  rw [← Nesting.after_strictly] at finished
  exact finished

private theorem problems_strictly (filePath : Text) (source : Source) (trivia : List Trivia) :
    (ofTrivia filePath source trivia ⟨true⟩).problems =
      Nesting.problemsOf true (pairingItems source trivia) ++
        Nesting.report .unterminated
          (Nesting.after false (pairingItems source trivia)).entries := by
  rw [problems_ofTrivia, Nesting.after_strictly, Nesting.strictly, Nesting.report_strictly]

theorem mem_stops_iff {stop : Marker} {options : ParseOptions} :
    stop ∈ (ofTrivia filePath source trivia options).stops ↔
      ∃ start outer,
        Nesting.Meets options.strictLocationTags (pairingItems source trivia) stop
          (some start :: outer) := by
  rw [stops, List.mem_filterMap]
  constructor
  · intro closed
    obtain ⟨block, member, stopEq⟩ := closed
    obtain ⟨start, outer, _, meets⟩ := exists_stop_iff.1 ⟨block, member, rfl, stopEq⟩
    exact ⟨start, outer, meets⟩
  · intro closes
    obtain ⟨start, outer, meets⟩ := closes
    obtain ⟨block, member, _, stopEq⟩ := exists_stop_iff.2 ⟨start, outer, rfl, meets⟩
    exact ⟨block, member, stopEq⟩

/-- Strictness only adds reports. Every block has the markers and the place that it
has without it, and the error that it has without it unless it has none and one of
its markers has a malformed tag. Of the reports, those on other things are the ones
that are made without strictness. Those on malformed tags are one for each start with
such a tag and one for each end with such a tag that closes a block, in the order of
the text. -/
theorem strictness_adds_reports
    {input : Input}
    (accepted : Trivia.firstFault? input.source.text input.usedTrivia = none) :
    ∃ strict lenient,
      input.parse ⟨true⟩ = .ok strict ∧
        input.parse ⟨false⟩ = .ok lenient ∧
        strict.tree = lenient.tree.map Block.strictly ∧
        strict.problems.filter (·.kind ≠ .malformedLocationTag) = lenient.problems ∧
        strict.problems.filter (·.kind = .malformedLocationTag) =
          ((PairingItem.markers input.items).filter fun found =>
              found.malformedTag && (found.isStart || lenient.stops.contains found)).map
            (.ofMarker .malformedLocationTag) := by
  refine
    ⟨_, _, Input.parse_eq_ok_iff.2 ⟨accepted, rfl⟩, Input.parse_eq_ok_iff.2 ⟨accepted, rfl⟩,
      tree_strictly _ _ _, ?_, ?_⟩
  · have kept :
        ∀ entries, (Nesting.report .unterminated entries).filter
            (·.kind ≠ .malformedLocationTag) =
          Nesting.report .unterminated entries := by
      intro entries
      rw [List.filter_eq_self]
      intro problem member
      simp [Nesting.kind_report member]
    rw [problems_strictly, List.filter_append, Nesting.filter_problemsOf_strictly, kept,
      problems_ofTrivia]
  · rw [problems_strictly, List.filter_append, Nesting.filter_report,
      if_neg BlockError.noConfusion, List.append_nil]
    exact
      Nesting.filter_malformed_problemsOf (inOrder_pairingItems accepted) fun stop =>
        mem_stops_iff

/-- Malformed tags on a start and an end that make a block, on an end that closes
nothing, on one that closes a plain region, and on a start that stays open. -/
def malformedText : Text :=
  "#region Macro A #x\n#endregion #y\n#endregion #z\n#region B\n#endregion #\n// Macro #q\n".toList

def malformedInput : Input := ⟨[], Source.ofText malformedText, none⟩

theorem strictness_adds_reports_malformedText :
    Trivia.firstFault? malformedInput.source.text malformedInput.usedTrivia = none ∧
      ∃ strict lenient,
        malformedInput.parse ⟨true⟩ = .ok strict ∧
          malformedInput.parse ⟨false⟩ = .ok lenient ∧
          strict.tree = lenient.tree.map Block.strictly ∧
          strict.problems.filter (·.kind ≠ .malformedLocationTag) = lenient.problems ∧
          strict.problems.map (·.line) = [1, 2, 3, 6, 6] ∧
          lenient.problems.map (·.line) = [3, 6] := by
  have accepted :
      Trivia.firstFault? malformedInput.source.text malformedInput.usedTrivia = none :=
    Trivia.firstFault?_extract malformedText
  obtain ⟨strict, lenient, strictParsed, lenientParsed, tree, problems, _⟩ :=
    strictness_adds_reports accepted
  obtain ⟨_, rfl⟩ := Input.parse_eq_ok_iff.1 strictParsed
  obtain ⟨_, rfl⟩ := Input.parse_eq_ok_iff.1 lenientParsed
  exact
    ⟨accepted, _, _, strictParsed, lenientParsed, tree, problems, by decide +kernel,
      by decide +kernel⟩

end Document

end MacroRegions

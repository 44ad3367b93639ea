import MacroRegions.Proofs.Forest.Ancestry
import MacroRegions.Proofs.Nesting.Conservation
import MacroRegions.Proofs.Nesting.Reports

/-!
Ends, errors and problems agree.

A block that never gets an end is finished by the end of the text, together with all
that is around it, or by the end of a block around it, which then is of the other
family. Errors of blocks and problems of documents tell which of the two it was.
-/

namespace MacroRegions

/-- A block of the other family that has an end, around one that has none. -/
def Block.CutsOff (outer inner : Block) : Prop :=
  outer.stop.isSome ∧
    ∃ start start',
      outer.start = some start ∧
        inner.start = some start' ∧
        start.family ≠ start'.family

namespace Block

/-- What is so of a block before the end of the text: it is not open any more,
and a block around it is the reason if it has no end. -/
def IsSettled (around : List Block) (block : Block) : Prop :=
  block.error ≠ some .unterminated ∧
    (block.error = some .outOfOrder → ∃ outer ∈ around, outer.CutsOff block)

/-- What is so of a block after the end of the text: it may be open, but then
all that is around it is open. -/
def IsExplained (around : List Block) (block : Block) : Prop :=
  (block.error = some .unterminated → ∀ outer ∈ around, outer.error = some .unterminated) ∧
    (block.error = some .outOfOrder → ∃ outer ∈ around, outer.CutsOff block)

namespace IsSettled

variable {around around' : List Block} {block : Block}

theorem mono (settled : block.IsSettled around) (subset : around ⊆ around') :
    block.IsSettled around' := by
  refine ⟨settled.1, ?_⟩
  intro outOfOrder
  obtain ⟨outer, member, cutsOff⟩ := settled.2 outOfOrder
  exact ⟨outer, subset member, cutsOff⟩

private theorem isExplained (settled : block.IsSettled around) : block.IsExplained around :=
  ⟨fun isOpen => absurd isOpen settled.1, settled.2⟩

end IsSettled

end Block

def BlockForest.IsSettled (forest : BlockForest) : Prop :=
  forest.AllBelow Block.IsSettled []

namespace BlockForest.IsSettled

variable {forest : BlockForest}

private theorem allBelow (settled : IsSettled forest) (around : List Block) :
    forest.AllBelow Block.IsSettled around :=
  Forest.AllBelow.mono settled (fun _ _ _ subset own => own.mono subset)
    (List.nil_subset around)

private theorem allBelow_isExplained (settled : IsSettled forest) (around : List Block) :
    forest.AllBelow Block.IsExplained around :=
  Forest.AllBelow.mono settled (fun _ _ _ subset own => (own.mono subset).isExplained)
    (List.nil_subset around)

end BlockForest.IsSettled

namespace Nesting

/-- Blocks that are ended together pass a test if each of them does, wherever
those around it may be. -/
theorem allBelow_collapse
    {test : List Block → Block → Prop}
    {P : List Block → Prop}
    {error : BlockError}
    {innermost : BlockForest}
    {entries : List OpenEntry}
    (innermostPasses : ∀ around, P around → innermost.AllBelow test around)
    (entriesPass : ∀ block, .block block ∈ entries → ∀ around, P around →
      let ended : Block := ⟨some block.start, none, some error⟩
      test around ended ∧
        P (ended :: around) ∧
        block.children.AllBelow test (ended :: around)) :
    ∀ around, P around → (collapse error innermost entries).AllBelow test around := by
  induction entries generalizing innermost with
  | nil => exact innermostPasses
  | cons entry rest inductionHypothesis =>
      have restPasses := fun block member => entriesPass block (List.mem_cons_of_mem entry member)
      cases entry with
      | plainRegion => exact inductionHypothesis innermostPasses restPasses
      | block block =>
          apply inductionHypothesis _ restPasses
          intro around isAround
          obtain ⟨passes, isAround', childrenPass⟩ :=
            entriesPass block List.mem_cons_self around isAround
          rw [OpenBlock.finish, Forest.allBelow_single, Forest.allBelow_append]
          exact ⟨passes, childrenPass, innermostPasses _ isAround'⟩

structure IsSettled (nesting : Nesting) : Prop where
  entries : ∀ block, .block block ∈ nesting.entries → BlockForest.IsSettled block.children
  finished : BlockForest.IsSettled nesting.finished

private theorem isSettled_attach
    {done : BlockForest}
    {entries : List OpenEntry}
    {finished : BlockForest}
    (doneSettled : BlockForest.IsSettled done)
    (settled : IsSettled ⟨entries, finished⟩) :
    (attach done entries finished).IsSettled := by
  induction entries with
  | nil => exact ⟨by simp [attach], Forest.allBelow_append.2 ⟨settled.finished, doneSettled⟩⟩
  | cons entry rest inductionHypothesis =>
      have restSettled : IsSettled ⟨rest, finished⟩ :=
        ⟨fun block member => settled.entries block (List.mem_cons_of_mem entry member),
          settled.finished⟩
      cases entry with
      | plainRegion =>
          have outer := inductionHypothesis restSettled
          refine ⟨?_, outer.finished⟩
          intro block member
          exact outer.entries block (by simpa [attach] using member)
      | block block =>
          refine ⟨?_, settled.finished⟩
          intro found member
          rw [attach, List.mem_cons, OpenEntry.block.injEq] at member
          rcases member with rfl | inRest
          · have own := settled.entries block List.mem_cons_self
            exact Forest.allBelow_append.2 ⟨own, doneSettled⟩
          · exact restSettled.entries found inRest

/-- A block with an end is settled, and so are those that are cut off by it. -/
theorem isSettled_closed
    {strict : Bool}
    {stop : Marker}
    {inner : List OpenEntry}
    {block : OpenBlock}
    (sameFamily : block.start.family = stop.family)
    (innerApart : ∀ entry ∈ inner, entry.family ≠ stop.family)
    (onEnded : BlockError.IsOnEnded strict block.error)
    (childrenSettled : BlockForest.IsSettled block.children)
    (innerSettled : ∀ other, .block other ∈ inner → BlockForest.IsSettled other.children) :
    BlockForest.IsSettled (closed strict stop inner block) := by
  have ownError := onEnded.errorWith stop
  let ended : Block :=
    ⟨some block.start, some stop, errorWith block.error (tagProblem strict stop)⟩
  rw [closed, OpenBlock.finish, BlockForest.IsSettled, Forest.allBelow_single,
    Forest.allBelow_append]
  refine ⟨⟨ownError.ne (by decide), ?_⟩, childrenSettled.allBelow _, ?_⟩
  · intro outOfOrder
    exact absurd outOfOrder (ownError.ne (by decide))
  · -- What is cut off stays so whatever else is put around it.
    refine allBelow_collapse (P := (ended ∈ ·)) ?_ ?_ [ended] List.mem_cons_self
    · intro around _
      trivial
    · intro other member around isAround
      refine ⟨⟨by simp, ?_⟩, List.mem_cons_of_mem _ isAround, ?_⟩
      · intro _
        refine ⟨ended, isAround, rfl, block.start, other.start, rfl, rfl, ?_⟩
        rw [sameFamily]
        exact (innerApart _ member).symm
      · exact (innerSettled other member).allBelow _

private theorem isSettled_close
    {strict : Bool}
    {nesting : Nesting}
    (stop : Marker)
    (settled : nesting.IsSettled)
    (onEnded : ∀ block, .block block ∈ nesting.entries →
      BlockError.IsOnEnded strict block.error) :
    (nesting.close strict stop).1.IsSettled := by
  rcases close_cases strict nesting stop with
    ⟨_, closed⟩ | ⟨inner, outer, split, _, _, closed⟩ |
      ⟨inner, block, outer, split, sameFamily, innerApart, closed⟩
  · rw [closed]
    exact settled
  · rw [closed]
    refine ⟨?_, settled.finished⟩
    intro block member
    apply settled.entries
    rw [split]
    simp only [List.mem_append, List.mem_cons] at member ⊢
    exact member.imp_right Or.inr
  · have entriesSettled := settled.entries
    simp only [split, List.mem_append, List.mem_cons] at entriesSettled onEnded
    have ended : BlockForest.IsSettled (Nesting.closed strict stop inner block) := by
      apply isSettled_closed sameFamily innerApart (onEnded block (Or.inr (Or.inl rfl)))
      · exact entriesSettled block (Or.inr (Or.inl rfl))
      · exact fun other member => entriesSettled other (Or.inl member)
    have attached : (attach (Nesting.closed strict stop inner block) outer
        nesting.finished).IsSettled := by
      apply isSettled_attach ended
      exact ⟨fun other member => entriesSettled other (Or.inr (Or.inr member)), settled.finished⟩
    rw [closed]
    refine ⟨?_, attached.finished⟩
    intro other member
    rcases List.mem_append.1 member with inInner | inOuter
    · exact entriesSettled other (Or.inl (List.mem_filter.1 inInner).1)
    · exact attached.entries other inOuter

private theorem isSettled_after (strict : Bool) (items : List PairingItem) :
    (after strict items).IsSettled := by
  refine
    PairingItem.takingInduction (P := fun taken => (after strict taken).IsSettled)
      items ⟨by simp [empty], trivial⟩ ?_
  intro taken item back _ settled
  rw [after_concat]
  cases item with
  | plainRegion =>
      refine ⟨?_, settled.finished⟩
      intro block member
      exact settled.entries block (by simpa [step] using member)
  | marker found =>
      cases keywordEq : found.keyword with
      | macroStart =>
          simp only [step, keywordEq]
          refine ⟨?_, settled.finished⟩
          intro block member
          rw [openBlock, List.mem_cons, OpenEntry.block.injEq] at member
          rcases member with rfl | isOpen
          · trivial
          · exact settled.entries block isOpen
      | macroEnd =>
          simp only [step, keywordEq]
          exact isSettled_close found settled fun block => isOnEnded_after

/-- At the end of the text, what is open is open up to the outermost block. -/
theorem allBelow_finish {nesting : Nesting} (settled : nesting.IsSettled) :
    nesting.finish.1.AllBelow Block.IsExplained [] := by
  rw [finish, Forest.allBelow_append]
  refine ⟨settled.finished.allBelow_isExplained [], ?_⟩
  refine
    allBelow_collapse
      (P := fun around => ∀ outer ∈ around, outer.error = some .unterminated)
      ?_ ?_ [] (by simp)
  · intro around _
    trivial
  · intro block member around isAround
    refine ⟨⟨fun _ => isAround, by simp⟩, ?_, ?_⟩
    · exact List.forall_mem_cons.2 ⟨rfl, isAround⟩
    · exact (settled.entries block member).allBelow_isExplained _

end Nesting

namespace Document

variable
  {filePath : Text}
  {source : Source}
  {trivia : List Trivia}
  {options : ParseOptions}

private theorem allBelow_ofTrivia
    (filePath : Text)
    (source : Source)
    (trivia : List Trivia)
    (options : ParseOptions) :
    (ofTrivia filePath source trivia options).tree.AllBelow Block.IsExplained [] :=
  Nesting.allBelow_finish
    (Nesting.isSettled_after options.strictLocationTags (pairingItems source trivia))

private theorem nodup_problems
    {kind : BlockError}
    (accepted : Trivia.firstFault? source.text trivia = none)
    (notTag : kind ≠ .malformedLocationTag)
    (notUnmatched : kind ≠ .unmatchedEnd) :
    ((ofTrivia filePath source trivia options).problems.filter (·.kind = kind)).Nodup := by
  have sameReports := reported_perm_problems filePath source trivia options notTag notUnmatched
  apply List.Nodup.of_map some
  apply sameReports.nodup_iff.1
  rw [BlockForest.reported, ← blocks_eq_toList]
  apply List.Nodup.map_on _ ((nodup_blocks accepted).filter _)
  intro block member other otherMember sameReport
  have blockMember := (List.mem_filter.1 member).1
  have otherBlock := (List.mem_filter.1 otherMember).1
  obtain ⟨start, startEq, inMarkers, _⟩ := mem_markers_of_mem_blocks blockMember
  obtain ⟨start', startEq', inMarkers', _⟩ := mem_markers_of_mem_blocks otherBlock
  have positionEq : start.position = start'.position := by
    rw [startEq, startEq', Option.map_some, Option.map_some, Option.some.injEq] at sameReport
    exact congrArg ParseProblem.position sameReport
  have sameStart :=
    (inOrder_pairingItems accepted).eq_of_position_eq inMarkers inMarkers' positionEq
  apply eq_of_start_eq accepted blockMember otherBlock
  rw [startEq, startEq', sameStart]

/-- The ends of the blocks of a document, their errors and the problems of the document
tell the same. Blocks without an end and the problems of their kind are one to one. -/
structure Agrees (document : Document) (strict : Bool) : Prop where
  nodup : document.blocks.Nodup
  starts : ∀ block ∈ document.blocks,
    ∃ start, block.start = some start ∧ start.keyword = .macroStart
  withoutEnd : ∀ block ∈ document.blocks,
    block.stop = none ↔ block.error = some .unterminated ∨ block.error = some .outOfOrder
  withEnd : ∀ block ∈ document.blocks, ∀ start stop,
    block.start = some start →
      block.stop = some stop →
        stop.keyword = .macroEnd ∧
          start.family = stop.family ∧
          (block.error = none ∨ strict = true ∧ block.error = some .malformedLocationTag)
  notUnmatched : ∀ block ∈ document.blocks, block.error ≠ some .unmatchedEnd
  problems : ∀ kind,
    kind = .unterminated ∨ kind = .outOfOrder →
      ((document.problems.filter (·.kind = kind)).map some).Perm
          ((document.blocks.filter (·.error = some kind)).map fun block =>
            block.start.map fun start => ⟨kind, start.form, start.position⟩) ∧
        (document.problems.filter (·.kind = kind)).Nodup
  unterminated : ∀ inner outer,
    document.tree.IsBelow inner outer →
      inner.error = some .unterminated →
        outer.error = some .unterminated
  outOfOrder : ∀ inner ∈ document.blocks,
    inner.error = some .outOfOrder →
      ∃ outer, document.tree.IsBelow inner outer ∧ outer.CutsOff inner

/-- The blocks of a document and its problems agree on what went wrong. -/
theorem agrees_of_parse
    {input : Input}
    {options : ParseOptions}
    {document : Document}
    (parsed : input.parse options = .ok document) :
    document.Agrees options.strictLocationTags := by
  obtain ⟨accepted, rfl⟩ := Input.parse_eq_ok_iff.1 parsed
  have explained :=
    allBelow_ofTrivia input.filePath input.source input.usedTrivia options
  have fits : ∀ block ∈ (ofTrivia input.filePath input.source input.usedTrivia options).blocks,
      block.ErrorFits options.strictLocationTags :=
    fun block member => (BlockRule.errorFits _).done_of_mem_blocks member
  constructor
  · exact nodup_blocks accepted
  · intro block member
    obtain ⟨start, startEq, _, isStart⟩ := mem_markers_of_mem_blocks member
    exact ⟨start, startEq, of_decide_eq_true isStart⟩
  · intro block member
    exact (fits block member).stop_eq_none_iff
  · intro block member start stop startEq stopEq
    have isEnd := (isStart_of_stop_eq member stopEq).2
    refine ⟨Marker.isStart_eq_false_iff.1 isEnd, ?_⟩
    exact (fits block member).of_stop_eq startEq stopEq
  · intro block member
    exact (fits block member).ne_unmatchedEnd
  · intro kind isWithoutEnd
    have notTag : kind ≠ .malformedLocationTag := by
      rcases isWithoutEnd with rfl | rfl <;> decide
    have notUnmatched : kind ≠ .unmatchedEnd := by
      rcases isWithoutEnd with rfl | rfl <;> decide
    rw [blocks_eq_toList]
    exact
      ⟨(reported_perm_problems _ _ _ _ notTag notUnmatched).symm,
        nodup_problems accepted notTag notUnmatched⟩
  · intro inner outer below isOpen
    obtain ⟨path, innerExplained, onPath⟩ := explained.exists_path_of_isBelow below
    exact innerExplained.1 isOpen outer onPath
  · intro inner member outOfOrder
    rw [blocks_eq_toList] at member
    obtain ⟨path, innerExplained, isBelow⟩ := explained.exists_path member
    obtain ⟨outer, onPath, cutsOff⟩ := innerExplained.2 outOfOrder
    exact ⟨outer, (isBelow outer onPath).resolve_left List.not_mem_nil, cutsOff⟩

/-- An end that closes nothing, a comment block that is cut off by the end of a
region, which has a malformed tag, and two blocks that stay open. -/
def erroneousText : Text :=
  "// EndMacro\n#region Macro\n// Macro\n#endregion #x\n/* Macro */\n#region Macro\n".toList

def erroneousInput : Input := ⟨[], Source.ofText erroneousText, none⟩

theorem agrees_erroneousText :
    ∃ document,
      erroneousInput.parse ⟨true⟩ = .ok document ∧
        document.Agrees true ∧
        document.blocks.map (·.error) =
          [some .malformedLocationTag, some .outOfOrder, some .unterminated,
            some .unterminated] ∧
        document.problems.map (·.kind) =
          [.unmatchedEnd, .outOfOrder, .malformedLocationTag, .unterminated,
            .unterminated] := by
  have parsed :
      erroneousInput.parse ⟨true⟩ =
        .ok (Document.parse [] (Source.ofText erroneousText) ⟨true⟩) :=
    rfl
  exact ⟨_, parsed, agrees_of_parse parsed, by decide +kernel, by decide +kernel⟩

end Document

end MacroRegions

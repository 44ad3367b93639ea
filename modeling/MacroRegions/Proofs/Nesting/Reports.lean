import MacroRegions.Proofs.Nesting.Blocks

/-!
Errors of blocks and problems of documents.

A block gets an error when it is finished without an end, and a problem of the same
kind is reported then. What the finished blocks have in errors is compared with what
has been reported, step by step: the two accounts agree up to their order.
-/

namespace MacroRegions

def BlockError.IsOnEnded (strict : Bool) (error : Option BlockError) : Prop :=
  error = none ∨ strict = true ∧ error = some .malformedLocationTag

namespace BlockError.IsOnEnded

variable {strict : Bool} {error : Option BlockError}

theorem ne
    {kind : BlockError}
    (onEnded : IsOnEnded strict error)
    (kindNe : kind ≠ .malformedLocationTag) :
    error ≠ some kind := by
  rcases onEnded with noError | ⟨_, malformed⟩
  · simp [noError]
  · simp [malformed, kindNe.symm]

theorem errorWith (onEnded : IsOnEnded strict error) (marker : Marker) :
    IsOnEnded strict (Nesting.errorWith error (Nesting.tagProblem strict marker)) := by
  rcases onEnded with rfl | ⟨isStrict, rfl⟩
  · unfold Nesting.tagProblem
    by_cases reported : (strict && marker.malformedTag) = true
    · rw [if_pos reported]
      exact Or.inr ⟨(Bool.and_eq_true_iff.1 reported).1, rfl⟩
    · rw [if_neg reported]
      exact Or.inl rfl
  · exact Or.inr ⟨isStrict, rfl⟩

end BlockError.IsOnEnded

/-- A block has an end of its own family, or it has none and its error says
so. -/
def Block.ErrorFits (strict : Bool) (block : Block) : Prop :=
  block.stop = none ∧
      (block.error = some .unterminated ∨ block.error = some .outOfOrder) ∨
    ∃ start stop,
      block.start = some start ∧
        block.stop = some stop ∧
        start.family = stop.family ∧
        BlockError.IsOnEnded strict block.error

def BlockRule.errorFits (strict : Bool) : BlockRule strict where
  opened _ error := BlockError.IsOnEnded strict error
  done := Block.ErrorFits strict
  opens start := BlockError.IsOnEnded.errorWith (Or.inl rfl) start
  closes start _ stop onEnded sameFamily :=
    Or.inr ⟨start, stop, rfl, rfl, sameFamily, onEnded.errorWith stop⟩
  drops _ _ _ := Or.inl ⟨rfl, Or.inr rfl⟩
  ends _ _ _ := Or.inl ⟨rfl, Or.inl rfl⟩

theorem Block.ErrorFits.stop_eq_none_iff
    {strict : Bool}
    {block : Block}
    (fits : block.ErrorFits strict) :
    block.stop = none ↔
      block.error = some .unterminated ∨ block.error = some .outOfOrder := by
  rcases fits with ⟨noStop, isOpen⟩ | ⟨_, stop, _, stopEq, _, onEnded⟩
  · simp [noStop, isOpen]
  · simp [stopEq, onEnded.ne]

theorem Block.ErrorFits.of_stop_eq
    {strict : Bool}
    {block : Block}
    {start stop : Marker}
    (fits : block.ErrorFits strict)
    (startEq : block.start = some start)
    (stopEq : block.stop = some stop) :
    start.family = stop.family ∧ BlockError.IsOnEnded strict block.error := by
  rcases fits with ⟨noStop, _⟩ | ⟨start', stop', startEq', stopEq', sameFamily, onEnded⟩
  · simp [noStop] at stopEq
  · obtain rfl := Option.some.inj (startEq.symm.trans startEq')
    obtain rfl := Option.some.inj (stopEq.symm.trans stopEq')
    exact ⟨sameFamily, onEnded⟩

theorem Block.ErrorFits.ne_unmatchedEnd
    {strict : Bool}
    {block : Block}
    (fits : block.ErrorFits strict) :
    block.error ≠ some .unmatchedEnd := by
  rcases fits with ⟨_, isOpen⟩ | ⟨_, _, _, _, _, onEnded⟩
  · rcases isOpen with isKind | isKind <;> simp [isKind]
  · exact onEnded.ne (by decide)

/-- The errors of open blocks are those that a block with an end may have. -/
theorem Nesting.isOnEnded_after
    {strict : Bool}
    {items : List PairingItem}
    {block : OpenBlock}
    (isOpen : .block block ∈ (after strict items).entries) :
    BlockError.IsOnEnded strict block.error :=
  (((BlockRule.errorFits strict).inNesting_after items).entries _ isOpen).1

/-- What is to be reported of the blocks that have an error of a kind. Nothing
can be reported of a block without a start. -/
def BlockForest.reported (kind : BlockError) (forest : BlockForest) :
    List (Option ParseProblem) :=
  (forest.toList.filter (·.error = some kind)).map fun block =>
    block.start.map (.ofMarker kind)

section Forests

variable {kind : BlockError}

@[simp]
theorem BlockForest.reported_nil : BlockForest.reported kind .nil = [] := rfl

@[simp]
theorem BlockForest.reported_append (left right : BlockForest) :
    BlockForest.reported kind (left ++ right) =
      BlockForest.reported kind left ++ BlockForest.reported kind right := by
  simp [BlockForest.reported]

private theorem OpenBlock.reported_finish
    (block : OpenBlock)
    (stop : Option Marker)
    (error : Option BlockError)
    (more : BlockForest) :
    BlockForest.reported kind (block.finish stop error more) =
      (if error = some kind then [some (.ofMarker kind block.start)] else []) ++
        (BlockForest.reported kind block.children ++ BlockForest.reported kind more) := by
  by_cases isKind : error = some kind
  · simp [BlockForest.reported, OpenBlock.finish, Forest.single, Forest.toList, isKind]
  · simp [BlockForest.reported, OpenBlock.finish, Forest.single, Forest.toList, isKind]

def OpenEntry.reported (kind : BlockError) : OpenEntry → List (Option ParseProblem)
  | plainRegion => []
  | block opened => BlockForest.reported kind opened.children

end Forests

namespace Nesting

def reported (kind : BlockError) (nesting : Nesting) : List (Option ParseProblem) :=
  BlockForest.reported kind nesting.finished ++ nesting.entries.flatMap (OpenEntry.reported kind)

variable {kind : BlockError}

private theorem report_block (block : OpenBlock) (rest : List OpenEntry) :
    report kind (.block block :: rest) = report kind rest ++ [.ofMarker kind block.start] := by
  simp [report, OpenEntry.block?]

/-- Blocks that are ended without an end are to be reported, and so is what was
to be reported of the blocks within them. -/
theorem reported_collapse_perm
    (kind error : BlockError)
    (innermost : BlockForest)
    (entries : List OpenEntry) :
    (BlockForest.reported kind (collapse error innermost entries)).Perm
      (BlockForest.reported kind innermost ++
        entries.flatMap (OpenEntry.reported kind) ++
        if error = kind then (report kind entries).map some else []) := by
  induction entries generalizing innermost with
  | nil => simp [collapse, report]
  | cons entry rest inductionHypothesis =>
      cases entry with
      | plainRegion => exact inductionHypothesis innermost
      | block block =>
          apply (inductionHypothesis _).trans
          rw [OpenBlock.reported_finish, report_block, List.perm_iff_count]
          intro problem
          by_cases isKind : error = kind
          · simp only [isKind, if_true, OpenEntry.reported, List.flatMap_cons, List.map_append,
              List.map_cons, List.map_nil, List.count_append]
            omega
          · simp only [isKind, Option.some.injEq, if_false, OpenEntry.reported,
              List.flatMap_cons, List.count_append, List.count_nil]
            omega

private theorem reported_attach_perm
    (kind : BlockError)
    (done : BlockForest)
    (entries : List OpenEntry)
    (finished : BlockForest) :
    ((attach done entries finished).reported kind).Perm
      (BlockForest.reported kind finished ++
        entries.flatMap (OpenEntry.reported kind) ++
        BlockForest.reported kind done) := by
  induction entries with
  | nil => simp [attach, reported]
  | cons entry rest inductionHypothesis =>
      cases entry with
      | plainRegion => exact inductionHypothesis
      | block block =>
          rw [List.perm_iff_count]
          intro problem
          simp only [attach, reported, OpenEntry.reported, BlockForest.reported_append,
            List.flatMap_cons, List.count_append]
          omega

private theorem filter_tagProblem
    (strict : Bool)
    (marker : Marker)
    (notTag : kind ≠ .malformedLocationTag) :
    (tagProblem strict marker).filter (·.kind = kind) = [] := by
  rw [List.filter_eq_nil_iff]
  intro problem member
  simp [kind_tagProblem member, notTag.symm]

/-- A block with an end adds the blocks that are ended within it. -/
theorem reported_closed_perm
    {strict : Bool}
    {block : OpenBlock}
    (stop : Marker)
    (inner : List OpenEntry)
    (notTag : kind ≠ .malformedLocationTag)
    (onEnded : BlockError.IsOnEnded strict block.error) :
    (BlockForest.reported kind (closed strict stop inner block)).Perm
      (BlockForest.reported kind block.children ++
        (inner.flatMap (OpenEntry.reported kind) ++
          if .outOfOrder = kind then (report kind inner).map some else [])) := by
  rw [closed, OpenBlock.reported_finish, if_neg ((onEnded.errorWith stop).ne notTag),
    List.nil_append]
  exact (reported_collapse_perm kind .outOfOrder .nil inner).append_left _

/-- An end marker reports the blocks that it leaves without an end, and
finishes them with an error of that kind. -/
theorem reported_close_perm
    {strict : Bool}
    {nesting : Nesting}
    (stop : Marker)
    (notTag : kind ≠ .malformedLocationTag)
    (notUnmatched : kind ≠ .unmatchedEnd)
    (onEnded : ∀ block, .block block ∈ nesting.entries →
      BlockError.IsOnEnded strict block.error) :
    ((nesting.close strict stop).1.reported kind).Perm
      (nesting.reported kind ++
        ((nesting.close strict stop).2.filter (·.kind = kind)).map some) := by
  rcases close_cases strict nesting stop with
    ⟨_, closed⟩ | ⟨inner, outer, split, _, _, closed⟩ | ⟨inner, block, outer, split, _, _, closed⟩
  · simp [closed, ParseProblem.ofMarker, notUnmatched.symm]
  · simp [closed, reported, split, OpenEntry.reported]
  · have ended := reported_closed_perm stop inner notTag (onEnded block (by simp [split]))
    have attached :=
      reported_attach_perm kind (Nesting.closed strict stop inner block) outer
        nesting.finished
    -- Of what was open within the block only plain regions stay, and they hold nothing.
    have noPlain := flatMap_plainRegions (rfl : OpenEntry.reported kind .plainRegion = []) inner
    rw [closed, List.filter_append, filter_tagProblem strict stop notTag, filter_report,
      List.append_nil, apply_ite (List.map some), List.map_nil, List.perm_iff_count]
    intro problem
    have endedCount := ended.count_eq problem
    have attachedCount := attached.count_eq problem
    simp only [reported, split, List.flatMap_append, List.flatMap_cons, List.count_append,
      noPlain, OpenEntry.reported, List.count_nil] at endedCount attachedCount ⊢
    omega

private theorem reported_step_perm
    {strict : Bool}
    {nesting : Nesting}
    (item : PairingItem)
    (notTag : kind ≠ .malformedLocationTag)
    (notUnmatched : kind ≠ .unmatchedEnd)
    (onEnded : ∀ block, .block block ∈ nesting.entries →
      BlockError.IsOnEnded strict block.error) :
    ((nesting.step strict item).1.reported kind).Perm
      (nesting.reported kind ++
        ((nesting.step strict item).2.filter (·.kind = kind)).map some) := by
  cases item with
  | plainRegion => simp [step, reported, OpenEntry.reported]
  | marker found =>
      cases keywordEq : found.keyword with
      | macroStart =>
          simp only [step, keywordEq, openBlock]
          simp [filter_tagProblem strict found notTag, reported, OpenEntry.reported]
      | macroEnd =>
          simp only [step, keywordEq]
          exact reported_close_perm found notTag notUnmatched onEnded

/-- What has been reported is what is to be reported of the finished blocks. -/
theorem reported_after_perm
    (strict : Bool)
    (items : List PairingItem)
    (notTag : kind ≠ .malformedLocationTag)
    (notUnmatched : kind ≠ .unmatchedEnd) :
    ((after strict items).reported kind).Perm
      (((problemsOf strict items).filter (·.kind = kind)).map some) := by
  refine
    PairingItem.takingInduction
      (P := fun taken =>
        ((after strict taken).reported kind).Perm
          (((problemsOf strict taken).filter (·.kind = kind)).map some))
      items (List.Perm.refl _) ?_
  intro taken item back _ takenPerm
  rw [after_concat, problemsOf_concat, List.filter_append, List.map_append]
  apply (reported_step_perm item notTag notUnmatched fun block => isOnEnded_after).trans
  exact takenPerm.append_right _

end Nesting

namespace Document

/-- The problems of a kind are what is to be reported of the tree, if only
blocks without an end have that kind. -/
theorem reported_perm_problems
    (filePath : Text)
    (source : Source)
    (trivia : List Trivia)
    (options : ParseOptions)
    {kind : BlockError}
    (notTag : kind ≠ .malformedLocationTag)
    (notUnmatched : kind ≠ .unmatchedEnd) :
    (BlockForest.reported kind (ofTrivia filePath source trivia options).tree).Perm
      (((ofTrivia filePath source trivia options).problems.filter (·.kind = kind)).map some) := by
  have treeEq :
      (ofTrivia filePath source trivia options).tree =
        (Nesting.after options.strictLocationTags (pairingItems source trivia)).finished ++
          Nesting.collapse .unterminated .nil
            (Nesting.after options.strictLocationTags (pairingItems source trivia)).entries :=
    rfl
  have finished :=
    Nesting.reported_after_perm options.strictLocationTags (pairingItems source trivia)
      notTag notUnmatched
  have ended :=
    Nesting.reported_collapse_perm kind .unterminated .nil
      (Nesting.after options.strictLocationTags (pairingItems source trivia)).entries
  rw [treeEq, problems_ofTrivia, List.filter_append, Nesting.filter_report, List.map_append,
    apply_ite (List.map some), List.map_nil, BlockForest.reported_append]
  apply (ended.append_left _).trans
  rw [BlockForest.reported_nil, List.nil_append, ← List.append_assoc]
  exact finished.append_right _

end Document

end MacroRegions

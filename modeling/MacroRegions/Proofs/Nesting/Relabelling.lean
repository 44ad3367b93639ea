import MacroRegions.Proofs.Marker.Outline
import MacroRegions.Proofs.Nesting.Strictness

/-!
Pairing markers that have been changed.

Pairing looks at the keyword and the form of a marker and at nothing else, unless
malformed location tags are to be reported. So markers can be changed before pairing
or behind it, and reports of malformed tags leave the blocks as they are but for their
errors.
-/

namespace MacroRegions

/-- A change of markers that pairing does not see, with what it does to their
positions. -/
structure Relabelling where
  marker : Marker → Marker
  position : Position → Position
  keyword_eq : ∀ found, (marker found).keyword = found.keyword
  form_eq : ∀ found, (marker found).form = found.form
  position_eq : ∀ found, (marker found).position = position found.position

def Block.relabel (change : Relabelling) (block : Block) : Block :=
  ⟨block.start.map change.marker, block.stop.map change.marker, block.error⟩

def BlockForest.relabel (change : Relabelling) (forest : BlockForest) : BlockForest :=
  forest.map (Block.relabel change)

def OpenBlock.relabel (change : Relabelling) (block : OpenBlock) : OpenBlock :=
  ⟨change.marker block.start, block.error, block.children.relabel change⟩

def OpenEntry.relabel (change : Relabelling) : OpenEntry → OpenEntry
  | plainRegion => plainRegion
  | block opened => block (opened.relabel change)

def ParseProblem.relabel (change : Relabelling) (problem : ParseProblem) : ParseProblem :=
  { problem with position := change.position problem.position }

variable (change : Relabelling)

namespace Relabelling

def KeepsReports (strict : Bool) : Prop :=
  strict = true → ∀ found, (change.marker found).malformedTag = found.malformedTag

theorem keepsReports_lenient : change.KeepsReports false := by
  intro isStrict
  contradiction

private theorem family_marker (found : Marker) : (change.marker found).family = found.family := by
  rw [Marker.family, change.form_eq, Marker.family]

private theorem ofMarker_marker (kind : BlockError) (found : Marker) :
    ParseProblem.ofMarker kind (change.marker found) =
      (ParseProblem.ofMarker kind found).relabel change := by
  rw [ParseProblem.ofMarker, change.form_eq, change.position_eq]
  rfl

end Relabelling

@[simp]
theorem BlockForest.relabel_nil : BlockForest.relabel change .nil = .nil := rfl

@[simp]
theorem BlockForest.relabel_append (left right : BlockForest) :
    BlockForest.relabel change (left ++ right) =
      BlockForest.relabel change left ++ BlockForest.relabel change right :=
  Forest.map_append _ left right

@[simp]
theorem OpenBlock.relabel_finish
    (block : OpenBlock)
    (stop : Option Marker)
    (error : Option BlockError)
    (more : BlockForest) :
    BlockForest.relabel change (block.finish stop error more) =
      (block.relabel change).finish (stop.map change.marker) error (more.relabel change) := by
  simp [OpenBlock.finish, OpenBlock.relabel, BlockForest.relabel, Forest.single, Forest.map,
    Forest.map_append, Block.relabel]

@[simp]
theorem OpenEntry.family_relabel (entry : OpenEntry) :
    (entry.relabel change).family = entry.family := by
  cases entry with
  | plainRegion => rfl
  | block opened => exact change.family_marker opened.start

@[simp]
theorem OpenEntry.block?_relabel (entry : OpenEntry) :
    (entry.relabel change).block? = entry.block?.map (OpenBlock.relabel change) := by
  cases entry with
  | plainRegion => rfl
  | block opened => rfl

namespace Nesting

def relabel (nesting : Nesting) : Nesting :=
  ⟨nesting.entries.map (OpenEntry.relabel change), nesting.finished.relabel change⟩

private theorem attach_relabel
    (done : BlockForest)
    (entries : List OpenEntry)
    (finished : BlockForest) :
    attach (done.relabel change) (entries.map (OpenEntry.relabel change))
        (finished.relabel change) =
      (attach done entries finished).relabel change := by
  induction entries with
  | nil => simp [attach, relabel]
  | cons entry rest inductionHypothesis =>
      cases entry with
      | plainRegion =>
          simp only [List.map_cons, OpenEntry.relabel, attach, inductionHypothesis]
          rfl
      | block opened =>
          simp [attach, relabel, OpenEntry.relabel, OpenBlock.relabel]

private theorem collapse_relabel
    (error : BlockError)
    (innermost : BlockForest)
    (entries : List OpenEntry) :
    collapse error (innermost.relabel change) (entries.map (OpenEntry.relabel change)) =
      (collapse error innermost entries).relabel change := by
  induction entries generalizing innermost with
  | nil => rfl
  | cons entry rest inductionHypothesis =>
      cases entry with
      | plainRegion => exact inductionHypothesis innermost
      | block opened =>
          rw [collapse, ← inductionHypothesis, OpenBlock.relabel_finish]
          rfl

private theorem report_relabel (kind : BlockError) (entries : List OpenEntry) :
    report kind (entries.map (OpenEntry.relabel change)) =
      (report kind entries).map (ParseProblem.relabel change) := by
  have blocksEq :
      (entries.map (OpenEntry.relabel change)).filterMap OpenEntry.block? =
        (entries.filterMap OpenEntry.block?).map (OpenBlock.relabel change) := by
    rw [List.filterMap_map, List.map_filterMap]
    exact List.filterMap_congr fun entry _ => OpenEntry.block?_relabel change entry
  rw [report, blocksEq, ← List.map_reverse, List.map_map, report, List.map_map]
  exact List.map_congr_left fun opened _ => change.ofMarker_marker kind opened.start

private theorem errorWith_relabel (error : Option BlockError) (problems : List ParseProblem) :
    errorWith error (problems.map (ParseProblem.relabel change)) = errorWith error problems := by
  rw [errorWith, List.head?_map, Option.map_map, errorWith]
  rfl

variable {change} {strict : Bool} (kept : change.KeepsReports strict)

include kept

private theorem tagProblem_relabel (found : Marker) :
    tagProblem strict (change.marker found) =
      (tagProblem strict found).map (ParseProblem.relabel change) := by
  cases strict with
  | false => rfl
  | true =>
      simp only [tagProblem, kept rfl found]
      split
      · rw [change.ofMarker_marker, List.map_singleton]
      · rfl

private theorem close_relabel (nesting : Nesting) (stop : Marker) :
    (nesting.relabel change).close strict (change.marker stop) =
      ((nesting.close strict stop).1.relabel change,
        (nesting.close strict stop).2.map (ParseProblem.relabel change)) := by
  have familyEq :
      ((fun entry : OpenEntry => decide (entry.family ≠ (change.marker stop).family)) ∘
          OpenEntry.relabel change) =
        fun entry => decide (entry.family ≠ stop.family) := by
    funext entry
    simp [change.family_marker]
  have innerEq :
      (nesting.entries.map (OpenEntry.relabel change)).takeWhile
          (·.family ≠ (change.marker stop).family) =
        (nesting.entries.takeWhile (·.family ≠ stop.family)).map (OpenEntry.relabel change) := by
    rw [List.takeWhile_map, familyEq]
  have outerEq :
      (nesting.entries.map (OpenEntry.relabel change)).dropWhile
          (·.family ≠ (change.marker stop).family) =
        (nesting.entries.dropWhile (·.family ≠ stop.family)).map (OpenEntry.relabel change) := by
    rw [List.dropWhile_map, familyEq]
  have plainEq :
      ∀ inner : List OpenEntry,
        (inner.map (OpenEntry.relabel change)).filter (·.block?.isNone) =
          (inner.filter (·.block?.isNone)).map (OpenEntry.relabel change) := by
    intro inner
    rw [List.filter_map]
    congr 1
    refine List.filter_congr fun entry _ => ?_
    simp
  unfold close
  simp only [relabel, innerEq, outerEq]
  cases nesting.entries.dropWhile (·.family ≠ stop.family) with
  | nil => simp [change.ofMarker_marker]
  | cons entry outer =>
      cases entry with
      | plainRegion => simp [OpenEntry.relabel]
      | block opened =>
          have attachEq :=
            attach_relabel change
              (opened.finish (some stop) (errorWith opened.error (tagProblem strict stop))
                (collapse .outOfOrder .nil (nesting.entries.takeWhile (·.family ≠ stop.family))))
              outer nesting.finished
          have collapseEq :=
            collapse_relabel change .outOfOrder .nil
              (nesting.entries.takeWhile (·.family ≠ stop.family))
          rw [BlockForest.relabel_nil] at collapseEq
          rw [OpenBlock.relabel_finish, ← collapseEq] at attachEq
          simp only [List.map_cons, OpenEntry.relabel, report_relabel, plainEq,
            Option.map_some] at attachEq ⊢
          have errorEq : (opened.relabel change).error = opened.error := rfl
          rw [errorEq, tagProblem_relabel kept, errorWith_relabel, attachEq, List.map_append]
          simp [relabel]

private theorem step_relabel (nesting : Nesting) (item : PairingItem) :
    (nesting.relabel change).step strict (item.mapMarker change.marker) =
      ((nesting.step strict item).1.relabel change,
        (nesting.step strict item).2.map (ParseProblem.relabel change)) := by
  cases item with
  | plainRegion => rfl
  | marker found =>
      cases keywordEq : found.keyword with
      | macroStart =>
          simp only [PairingItem.mapMarker, step, change.keyword_eq, keywordEq, openBlock,
            tagProblem_relabel kept, errorWith_relabel]
          rfl
      | macroEnd =>
          simp only [PairingItem.mapMarker, step, change.keyword_eq, keywordEq]
          exact close_relabel kept nesting found

/-- Markers changed before pairing come to the same as markers changed behind
it. -/
theorem run_relabel (items : List PairingItem) :
    after strict (items.map (PairingItem.mapMarker change.marker)) =
        (after strict items).relabel change ∧
      problemsOf strict (items.map (PairingItem.mapMarker change.marker)) =
        (problemsOf strict items).map (ParseProblem.relabel change) := by
  refine
    PairingItem.takingInduction
      (P := fun taken =>
        after strict (taken.map (PairingItem.mapMarker change.marker)) =
            (after strict taken).relabel change ∧
          problemsOf strict (taken.map (PairingItem.mapMarker change.marker)) =
            (problemsOf strict taken).map (ParseProblem.relabel change))
      items ⟨rfl, rfl⟩ ?_
  rintro taken item back _ ⟨afterEq, problemsEq⟩
  rw [List.map_append, List.map_singleton, after_concat, problemsOf_concat, after_concat,
    problemsOf_concat, afterEq, problemsEq, step_relabel kept, List.map_append]
  exact ⟨rfl, rfl⟩

omit kept

variable (change) in
theorem finish_relabel (nesting : Nesting) :
    (nesting.relabel change).finish =
      (nesting.finish.1.relabel change,
        nesting.finish.2.map (ParseProblem.relabel change)) := by
  have collapseEq := collapse_relabel change .unterminated .nil nesting.entries
  rw [BlockForest.relabel_nil] at collapseEq
  simp only [finish, relabel, collapseEq, report_relabel, BlockForest.relabel_append]

end Nesting

def BlockForest.eraseErrors (forest : BlockForest) : BlockForest :=
  forest.map fun block => { block with error := none }

def OpenEntry.eraseErrors : OpenEntry → OpenEntry
  | plainRegion => plainRegion
  | block opened => block ⟨opened.start, none, opened.children.eraseErrors⟩

@[simp]
theorem BlockForest.eraseErrors_append (left right : BlockForest) :
    BlockForest.eraseErrors (left ++ right) = left.eraseErrors ++ right.eraseErrors :=
  Forest.map_append _ left right

@[simp]
theorem BlockForest.eraseErrors_eraseErrors (forest : BlockForest) :
    forest.eraseErrors.eraseErrors = forest.eraseErrors :=
  Forest.map_map _ _ forest

theorem OpenBlock.eraseErrors_finish_congr
    {more more' : BlockForest}
    (same : more.eraseErrors = more'.eraseErrors)
    (block : OpenBlock)
    (stop : Option Marker)
    (error error' : Option BlockError) :
    (block.finish stop error more).eraseErrors =
      (OpenBlock.finish ⟨block.start, none, block.children.eraseErrors⟩ stop error'
        more').eraseErrors := by
  have within :
      (block.children ++ more).eraseErrors =
        (block.children.eraseErrors ++ more').eraseErrors := by
    simp [same]
  simp only [BlockForest.eraseErrors] at within ⊢
  simp [OpenBlock.finish, Forest.single, Forest.map, within]

namespace Nesting

def eraseErrors (nesting : Nesting) : Nesting :=
  ⟨nesting.entries.map OpenEntry.eraseErrors, nesting.finished.eraseErrors⟩

private theorem eraseErrors_collapse_congr
    (error : BlockError)
    {innermost innermost' : BlockForest}
    (same : innermost.eraseErrors = innermost'.eraseErrors)
    (entries : List OpenEntry) :
    (collapse error innermost entries).eraseErrors =
      (collapse error innermost' (entries.map OpenEntry.eraseErrors)).eraseErrors := by
  induction entries generalizing innermost innermost' with
  | nil => exact same
  | cons entry rest inductionHypothesis =>
      cases entry with
      | plainRegion => exact inductionHypothesis same
      | block opened =>
          refine inductionHypothesis ?_
          exact OpenBlock.eraseErrors_finish_congr same opened none _ _

/-- Strictness changes no block but for its error. -/
theorem eraseErrors_strictly (nesting : Nesting) :
    nesting.strictly.eraseErrors = nesting.eraseErrors := by
  have forestEq : ∀ forest : BlockForest, forest.strictly.eraseErrors = forest.eraseErrors :=
    fun forest => Forest.map_map _ _ forest
  have entriesEq :
      (nesting.entries.map OpenEntry.strictly).map OpenEntry.eraseErrors =
        nesting.entries.map OpenEntry.eraseErrors := by
    rw [List.map_map]
    apply List.map_congr_left
    intro entry _
    cases entry with
    | plainRegion => rfl
    | block opened =>
        simp only [Function.comp_apply, OpenEntry.strictly, OpenBlock.strictly,
          OpenEntry.eraseErrors, forestEq]
  rw [eraseErrors, strictly, entriesEq, forestEq, eraseErrors]

/-- Reports of malformed tags are all that strictness adds to the blocks. -/
theorem eraseErrors_after (strict : Bool) (items : List PairingItem) :
    (after strict items).eraseErrors = (after false items).eraseErrors := by
  cases strict with
  | false => rfl
  | true => rw [after_strictly, eraseErrors_strictly]

theorem eraseErrors_finish_congr
    {first second : Nesting}
    (same : first.eraseErrors = second.eraseErrors) :
    first.finish.1.eraseErrors = second.finish.1.eraseErrors := by
  have viaErased :
      ∀ nesting : Nesting,
        nesting.finish.1.eraseErrors =
          (nesting.finished.eraseErrors ++
            (collapse .unterminated .nil
              (nesting.entries.map OpenEntry.eraseErrors)).eraseErrors) := by
    intro nesting
    rw [finish, BlockForest.eraseErrors_append,
      eraseErrors_collapse_congr .unterminated
        (show BlockForest.eraseErrors .nil = BlockForest.eraseErrors .nil from rfl)]
  obtain ⟨entriesEq, finishedEq⟩ := Nesting.mk.inj same
  rw [viaErased, viaErased, entriesEq, finishedEq]

end Nesting

end MacroRegions

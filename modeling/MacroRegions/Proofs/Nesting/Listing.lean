import MacroRegions.Proofs.Nesting.Steps

/-!
The markers of a forest, listed as they stand in a text.

The start of a block stands before the blocks within it and the end behind them.
Pairing undoes the listing: it puts the blocks of such a list behind those that are
there already, and reports nothing.
-/

namespace MacroRegions

/-- A block that an end marker of the family of its start has closed. -/
inductive Block.IsPaired : Block → Prop where
  | intro (start stop : Marker)
      (opens : start.keyword = .macroStart)
      (closes : stop.keyword = .macroEnd)
      (sameFamily : start.family = stop.family) :
      IsPaired ⟨some start, some stop, none⟩

/-- The markers of a forest in the order of a text: the blocks within a block
are between its markers. -/
def BlockForest.brackets : BlockForest → List Marker
  | .nil => []
  | .node block children siblings =>
    block.start.toList ++ brackets children ++ block.stop.toList ++ brackets siblings

namespace Nesting

private theorem attach_nil (entries : List OpenEntry) (finished : BlockForest) :
    attach .nil entries finished = ⟨entries, finished⟩ := by
  induction entries with
  | nil => simp [attach]
  | cons entry rest inductionHypothesis =>
      cases entry with
      | plainRegion => simp [attach, inductionHypothesis]
      | block block => simp [attach]

/-- Finished blocks are put behind each other. -/
theorem attach_attach
    (first second : BlockForest)
    (entries : List OpenEntry)
    (finished : BlockForest) :
    attach second (attach first entries finished).entries
        (attach first entries finished).finished =
      attach (first ++ second) entries finished := by
  induction entries with
  | nil => simp [attach, Forest.append_assoc]
  | cons entry rest inductionHypothesis =>
      cases entry with
      | plainRegion => simp [attach, inductionHypothesis]
      | block block => simp [attach, Forest.append_assoc]

/-- An end marker closes the innermost open block of its family when nothing is
open within it. -/
theorem close_innermost
    {start stop : Marker}
    {children : BlockForest}
    {entries : List OpenEntry}
    {finished : BlockForest}
    (sameFamily : start.family = stop.family) :
    close false ⟨.block ⟨start, none, children⟩ :: entries, finished⟩ stop =
      (attach (Forest.single ⟨some start, some stop, none⟩ children) entries finished, []) := by
  have isInnermost : ¬ OpenEntry.family (.block ⟨start, none, children⟩) ≠ stop.family :=
    fun differs => differs sameFamily
  simp only [close]
  rw [List.takeWhile_cons_of_neg (by simpa using isInnermost),
    List.dropWhile_cons_of_neg (by simpa using isInnermost)]
  simp [tagProblem, errorWith, OpenBlock.finish, collapse, report]

/-- The listed markers of a forest are paired into its blocks, whatever is open. -/
theorem run_brackets
    {forest : BlockForest}
    (paired : ∀ block ∈ forest.toList, block.IsPaired)
    (nesting : Nesting) :
    (nesting.run false (forest.brackets.map .marker)).1 =
        attach forest nesting.entries nesting.finished ∧
      (nesting.run false (forest.brackets.map .marker)).2.flatMap (·.2) = [] := by
  induction forest generalizing nesting with
  | nil => exact ⟨(attach_nil _ _).symm, rfl⟩
  | node block children siblings childrenHypothesis siblingsHypothesis =>
      obtain ⟨start, stop, opens, closes, sameFamily⟩ := paired block (by simp [Forest.toList])
      have opened :
          nesting.step false (.marker start) =
            (⟨.block ⟨start, none, .nil⟩ :: nesting.entries, nesting.finished⟩, []) := by
        simp [step, opens, openBlock, tagProblem, errorWith]
      obtain ⟨within, quiet⟩ :=
        childrenHypothesis (fun other member => paired other (by simp [Forest.toList, member]))
          ⟨.block ⟨start, none, .nil⟩ :: nesting.entries, nesting.finished⟩
      rw [attach] at within
      have closed :
          step false
              ⟨.block ⟨start, none, .nil ++ children⟩ :: nesting.entries, nesting.finished⟩
              (.marker stop) =
            (attach (Forest.single ⟨some start, some stop, none⟩ children) nesting.entries
              nesting.finished, []) := by
        simp only [step, closes]
        exact close_innermost sameFamily
      obtain ⟨beside, quiet'⟩ :=
        siblingsHypothesis (fun other member => paired other (by simp [Forest.toList, member]))
          (attach (Forest.single ⟨some start, some stop, none⟩ children) nesting.entries
            nesting.finished)
      rw [attach_attach] at beside
      simp only [BlockForest.brackets, Option.toList_some, List.map_append, List.map_cons,
        List.append_assoc, List.singleton_append, run, run_append]
      simp only [opened, within, closed, beside, quiet, quiet', List.flatMap_cons,
        List.flatMap_append, List.nil_append, and_true]
      rfl

end Nesting

/-- A text with the markers of a forest has the forest as its document. -/
theorem Document.ofTrivia_of_brackets
    {source : Source}
    {trivia : List Trivia}
    {forest : BlockForest}
    (filePath : Text)
    (paired : ∀ block ∈ forest.toList, block.IsPaired)
    (listed : pairingItems source trivia = forest.brackets.map .marker) :
    ofTrivia filePath source trivia .lenient = ⟨filePath, forest, []⟩ := by
  obtain ⟨finished, quiet⟩ := Nesting.run_brackets paired .empty
  have finishedEq :
      (Nesting.empty.run false (forest.brackets.map .marker)).1 = ⟨[], forest⟩ := finished
  simp only [ofTrivia, ParseOptions.lenient, listed, finishedEq, quiet]
  simp [Nesting.finish, Nesting.collapse, Nesting.report]

end MacroRegions

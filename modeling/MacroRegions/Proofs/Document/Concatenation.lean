import MacroRegions.Proofs.Marker.Displacement
import MacroRegions.Proofs.Nesting.Relabelling

/-!
Documents of one text behind another.

What stands above a block changes nothing but its place, as long as it leaves nothing
open: no line, no comment, no literal, no block and no region. The document of two
texts is then that of the first followed by that of the second, further on.
-/

namespace MacroRegions

def Block.behind (front : Text) (block : Block) : Block :=
  ⟨block.start.map (Marker.behind front), block.stop.map (Marker.behind front), block.error⟩

def ParseProblem.behind (front : Text) (problem : ParseProblem) : ParseProblem :=
  { problem with position := problem.position.behind front }

def Relabelling.behind (front : Text) : Relabelling where
  marker := Marker.behind front
  position := Position.behind front
  keyword_eq := fun _ => rfl
  form_eq := fun _ => rfl
  position_eq := fun _ => rfl

private theorem Relabelling.keepsReports_behind (front : Text) (strict : Bool) :
    (behind front).KeepsReports strict :=
  fun _ _ => rfl

namespace Nesting

/-- A nesting with blocks in front of those that are finished. -/
def following (before : BlockForest) (nesting : Nesting) : Nesting :=
  ⟨nesting.entries, before ++ nesting.finished⟩

variable (before : BlockForest)

private theorem attach_following
    (done : BlockForest)
    (entries : List OpenEntry)
    (finished : BlockForest) :
    attach done entries (before ++ finished) =
      (attach done entries finished).following before := by
  induction entries with
  | nil => simp [attach, following, Forest.append_assoc]
  | cons entry rest inductionHypothesis =>
      cases entry with
      | plainRegion =>
          simp only [attach, inductionHypothesis]
          rfl
      | block opened => rfl

private theorem close_following (strict : Bool) (nesting : Nesting) (stop : Marker) :
    (nesting.following before).close strict stop =
      ((nesting.close strict stop).1.following before, (nesting.close strict stop).2) := by
  unfold close
  simp only [following]
  cases nesting.entries.dropWhile (·.family ≠ stop.family) with
  | nil => rfl
  | cons entry outer =>
      cases entry with
      | plainRegion => rfl
      | block opened =>
          simp only [attach_following]
          rfl

private theorem step_following (strict : Bool) (nesting : Nesting) (item : PairingItem) :
    (nesting.following before).step strict item =
      ((nesting.step strict item).1.following before, (nesting.step strict item).2) := by
  cases item with
  | plainRegion => rfl
  | marker found =>
      cases keywordEq : found.keyword with
      | macroStart =>
          simp only [step, keywordEq]
          rfl
      | macroEnd =>
          simp only [step, keywordEq]
          exact close_following before strict nesting found

/-- Pairing does not look at what is finished before. -/
theorem run_following (strict : Bool) (nesting : Nesting) (items : List PairingItem) :
    (nesting.following before).run strict items =
      ((nesting.run strict items).1.following before, (nesting.run strict items).2) := by
  induction items generalizing nesting with
  | nil => rfl
  | cons item rest inductionHypothesis =>
      simp only [run, step_following, inductionHypothesis]

private theorem finish_following (nesting : Nesting) :
    (nesting.following before).finish = (before ++ nesting.finish.1, nesting.finish.2) := by
  simp [finish, following, Forest.append_assoc]

variable {strict : Bool} {first : List PairingItem}

private theorem finish_of_closed
    {nesting : Nesting}
    (nothingOpen : nesting.entries = []) :
    nesting.finish = (nesting.finished, []) := by
  simp [finish, nothingOpen, collapse, report]

/-- Behind items that leave nothing open pairing starts anew. -/
theorem run_append_of_closed
    (nothingOpen : (after strict first).entries = [])
    (second : List PairingItem) :
    after strict (first ++ second) = (after strict second).following (after strict first).finished ∧
      problemsOf strict (first ++ second) =
        problemsOf strict first ++ problemsOf strict second := by
  have stateEq : following (after strict first).finished empty = after strict first := by
    have asPair : following (after strict first).finished empty =
        ⟨[], (after strict first).finished⟩ := by
      simp [following, empty]
    rw [asPair, ← nothingOpen]
  have runEq := run_following (after strict first).finished strict empty second
  rw [stateEq] at runEq
  constructor
  · rw [after, run_append]
    exact congrArg Prod.fst runEq
  · rw [problemsOf, run_append, List.flatMap_append]
    exact congrArg (fun turns => problemsOf strict first ++ turns.2.flatMap (·.2)) runEq

/-- Behind items that leave nothing open, items with changed markers make the
blocks and the problems that they make alone, changed in the same way. -/
theorem finish_append_of_closed
    {change : Relabelling}
    (nothingOpen : (after strict first).entries = [])
    (kept : change.KeepsReports strict)
    (second : List PairingItem) :
    let whole := first ++ second.map (PairingItem.mapMarker change.marker)
    (after strict whole).finish.1 =
        (after strict first).finish.1 ++ (after strict second).finish.1.relabel change ∧
      problemsOf strict whole ++ (after strict whole).finish.2 =
        (problemsOf strict first ++ (after strict first).finish.2) ++
          (problemsOf strict second ++ (after strict second).finish.2).map
            (ParseProblem.relabel change) := by
  intro whole
  obtain ⟨afterEq, problemsEq⟩ :=
    run_append_of_closed nothingOpen (second.map (PairingItem.mapMarker change.marker))
  obtain ⟨afterSecond, problemsSecond⟩ := run_relabel kept second
  rw [afterSecond] at afterEq
  rw [problemsSecond] at problemsEq
  have finishEq := congrArg Nesting.finish afterEq
  rw [finish_following, finish_relabel] at finishEq
  rw [problemsEq, finishEq, finish_of_closed nothingOpen]
  simp

/-- What is open does not depend on whether malformed tags are reported. -/
theorem entries_after_eq_nil_iff (strict : Bool) (items : List PairingItem) :
    (after strict items).entries = [] ↔ (after false items).entries = [] := by
  have entriesEq := congrArg Nesting.entries (eraseErrors_after strict items)
  simp only [eraseErrors] at entriesEq
  rw [← List.map_eq_nil_iff, entriesEq, List.map_eq_nil_iff]

end Nesting

namespace Document

def LeavesNothingOpen (source : Source) : Prop :=
  (Nesting.after false (pairingItems source (Trivia.extract source.text))).entries = []

instance (source : Source) : Decidable (LeavesNothingOpen source) :=
  inferInstanceAs (Decidable (_ = []))

private theorem parse_ofText (filePath text : Text) (options : ParseOptions) :
    let items := pairingItems (Source.ofText text) (Trivia.extract text)
    let nesting := Nesting.after options.strictLocationTags items
    parse filePath (Source.ofText text) options =
      ⟨filePath, nesting.finish.1,
        Nesting.problemsOf options.strictLocationTags items ++ nesting.finish.2⟩ :=
  rfl

/-- The document of two texts, one behind the other, is that of the first and
behind it that of the second, displaced. -/
theorem parse_append
    {front : Text}
    (ended : front.getLast? = some '\n')
    (noVerbatim : '@' ∉ front)
    (closed : ∀ lexeme ∈ Lexeme.ofText front, lexeme.kind ≠ .openComment)
    (nothingOpen : LeavesNothingOpen (Source.ofText front))
    (filePath back : Text)
    (options : ParseOptions) :
    let first := parse filePath (Source.ofText front) options
    let second := parse filePath (Source.ofText back) options
    parse filePath (Source.ofText (front ++ back)) options =
      ⟨filePath, first.tree ++ second.tree.map (Block.behind front),
        first.problems ++ second.problems.map (ParseProblem.behind front)⟩ := by
  have holds := (Trivia.firstFault?_eq_none_iff.1 (Trivia.firstFault?_extract front)).1
  have itemsEq := pairingItems_append_behind ended holds back (Trivia.extract back)
  rw [← Trivia.extract_append ended noVerbatim closed] at itemsEq
  have closedFirst :=
    (Nesting.entries_after_eq_nil_iff options.strictLocationTags _).2 nothingOpen
  obtain ⟨treeEq, problemsEq⟩ :=
    Nesting.finish_append_of_closed closedFirst
      (Relabelling.keepsReports_behind front options.strictLocationTags)
      (pairingItems (Source.ofText back) (Trivia.extract back))
  simp only [parse_ofText, itemsEq]
  exact congrArg₂ (Document.mk filePath) treeEq problemsEq

/-- A block around literals that are not what they look like. -/
def guardedText : Text :=
  "// Macro A #x\nurl = \"/* // Macro\";\n'\n/* EndMacro */\n".toList

/-- Blocks of both families, one in the other and one without an end. -/
def openText : Text :=
  "#region Macro B #7\n// Macro C #y\n#endregion\n// Macro D\n".toList

theorem parse_append_guardedText :
    let first := parse [] (Source.ofText guardedText) ⟨true⟩
    let second := parse [] (Source.ofText openText) ⟨true⟩
    guardedText.getLast? = some '\n' ∧
      '@' ∉ guardedText ∧
      (∀ lexeme ∈ Lexeme.ofText guardedText, lexeme.kind ≠ .openComment) ∧
      LeavesNothingOpen (Source.ofText guardedText) ∧
      first.blocks.length = 1 ∧
      second.blocks.length = 3 ∧
      parse [] (Source.ofText (guardedText ++ openText)) ⟨true⟩ =
        ⟨[], first.tree ++ second.tree.map (Block.behind guardedText),
          first.problems ++ second.problems.map (ParseProblem.behind guardedText)⟩ := by
  intro first second
  have ended : guardedText.getLast? = some '\n' := by decide
  have noVerbatim : '@' ∉ guardedText := by decide
  have closed : ∀ lexeme ∈ Lexeme.ofText guardedText, lexeme.kind ≠ .openComment := by
    decide +kernel
  have nothingOpen : LeavesNothingOpen (Source.ofText guardedText) := by decide +kernel
  exact
    ⟨ended, noVerbatim, closed, nothingOpen, by decide +kernel, by decide +kernel,
      parse_append ended noVerbatim closed nothingOpen [] openText ⟨true⟩⟩

end Document

end MacroRegions

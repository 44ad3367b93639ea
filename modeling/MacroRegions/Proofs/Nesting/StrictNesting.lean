import MacroRegions.Proofs.Nesting.Steps

/-!
The blocks of a text lie within each other.

Between two steps of pairing, what is finished within an open block lies behind the
block's start and before the start of the next open block. Every step keeps this, and
an end that closes a block from the middle of the list ends the blocks within it
before itself.
-/

namespace MacroRegions

namespace BlockForest

def markers (forest : BlockForest) : List Marker :=
  forest.toList.flatMap Block.markers

/-- Every block lies between the markers of the block around it, and before
the blocks that come after it in its row. -/
def IsNested : BlockForest → Prop
  | .nil => True
  | .node block children siblings =>
    (∃ start, block.start = some start ∧
      (∀ stop, block.stop = some stop → start.Before stop) ∧
      ∀ inner ∈ markers children,
        start.Before inner ∧ ∀ stop, block.stop = some stop → inner.Before stop) ∧
    (∀ earlier ∈ markers (Forest.single block children),
      ∀ later ∈ markers siblings, earlier.Before later) ∧
    IsNested children ∧
    IsNested siblings

private theorem isNested_nil : IsNested .nil := trivial

def LiesIn (lower upper : Nat) (forest : BlockForest) : Prop :=
  ∀ found ∈ markers forest,
    lower ≤ found.position.start.offset ∧ found.position.stop.offset ≤ upper

@[simp]
theorem markers_append (left right : BlockForest) :
    markers (left ++ right) = markers left ++ markers right := by
  simp [markers]

private theorem markers_node (block : Block) (children siblings : BlockForest) :
    markers (.node block children siblings) =
      markers (.single block children) ++ markers siblings := by
  simp [markers, Forest.single, Forest.toList]

private theorem markers_single (block : Block) (children : BlockForest) :
    markers (.single block children) = block.markers ++ markers children := by
  simp [markers, Forest.single, Forest.toList]

namespace LiesIn

theorem mono
    {lower upper lower' upper' : Nat}
    {forest : BlockForest}
    (lies : LiesIn lower upper forest)
    (lowerLe : lower' ≤ lower)
    (upperLe : upper ≤ upper') :
    LiesIn lower' upper' forest := by
  intro found member
  have between := lies found member
  omega

theorem append
    {lower upper : Nat}
    {left right : BlockForest}
    (leftLies : LiesIn lower upper left)
    (rightLies : LiesIn lower upper right) :
    LiesIn lower upper (left ++ right) := by
  intro found member
  rw [markers_append, List.mem_append] at member
  exact member.elim (leftLies found) (rightLies found)

end LiesIn

@[simp]
theorem liesIn_nil (lower upper : Nat) : LiesIn lower upper .nil := by
  intro found member
  simp [markers, Forest.toList] at member

/-- Rows of nested blocks that lie one behind the other make one such row. -/
theorem IsNested.append
    {lower middle upper : Nat}
    {left right : BlockForest}
    (leftNested : IsNested left)
    (leftLies : LiesIn lower middle left)
    (rightNested : IsNested right)
    (rightLies : LiesIn middle upper right) :
    IsNested (left ++ right) := by
  induction left with
  | nil => exact rightNested
  | node block children siblings _ inductionHypothesis =>
      obtain ⟨within, apart, childrenNested, siblingsNested⟩ := leftNested
      have siblingsLie : LiesIn lower middle siblings := by
        intro found member
        exact leftLies found (by rw [markers_node]; exact List.mem_append_right _ member)
      rw [Forest.node_append]
      refine ⟨within, ?_, childrenNested, inductionHypothesis siblingsNested siblingsLie⟩
      intro earlier earlierMember later laterMember
      rw [markers_append, List.mem_append] at laterMember
      rcases laterMember with inSiblings | inRight
      · exact apart earlier earlierMember later inSiblings
      · have first :=
          leftLies earlier (by rw [markers_node]; exact List.mem_append_left _ earlierMember)
        have second := rightLies later inRight
        unfold Marker.Before
        omega

/-- A nested block starts before it ends. -/
theorem IsNested.exists_start
    {forest : BlockForest}
    {block : Block}
    (nested : IsNested forest)
    (member : block ∈ forest.toList) :
    ∃ start, block.start = some start ∧ ∀ stop, block.stop = some stop → start.Before stop := by
  induction forest with
  | nil => simp [Forest.toList] at member
  | node root children siblings childrenHypothesis siblingsHypothesis =>
      obtain ⟨⟨start, startEq, startBefore, _⟩, _, childrenNested, siblingsNested⟩ := nested
      simp only [Forest.toList, List.mem_cons, List.mem_append] at member
      rcases member with rfl | inChildren | inSiblings
      · exact ⟨start, startEq, startBefore⟩
      · exact childrenHypothesis childrenNested inChildren
      · exact siblingsHypothesis siblingsNested inSiblings

end BlockForest

namespace OpenBlock

open BlockForest

/-- A finished block is nested if what is within it lies between its markers. -/
theorem isNested_finish
    {block : OpenBlock}
    {stop : Option Marker}
    {more : BlockForest}
    {middle upper : Nat}
    (error : Option BlockError)
    (childrenNested : IsNested block.children)
    (childrenLie : LiesIn block.start.position.stop.offset middle block.children)
    (moreNested : IsNested more)
    (moreLie : LiesIn middle upper more)
    (startLe : block.start.position.stop.offset ≤ middle)
    (middleLe : middle ≤ upper)
    (stopBehind : ∀ found, stop = some found → upper ≤ found.position.start.offset) :
    IsNested (block.finish stop error more) := by
  have innerLie :
      LiesIn block.start.position.stop.offset upper (block.children ++ more) :=
    (childrenLie.mono (Nat.le_refl _) middleLe).append (moreLie.mono startLe (Nat.le_refl _))
  have innerNested : IsNested (block.children ++ more) :=
    childrenNested.append childrenLie moreNested moreLie
  have beforeStop : ∀ inner : Marker, inner.position.stop.offset ≤ upper →
      ∀ found, stop = some found → inner.Before found :=
    fun _ innerLe found stopEq => Nat.le_trans innerLe (stopBehind found stopEq)
  refine
    ⟨⟨block.start, rfl, beforeStop _ (Nat.le_trans startLe middleLe), ?_⟩, ?_, innerNested,
      trivial⟩
  · intro inner member
    have lies := innerLie inner member
    exact ⟨lies.1, beforeStop inner lies.2⟩
  · intro earlier _ later member
    simp [markers, Forest.toList] at member

private theorem liesIn_finish
    {block : OpenBlock}
    {stop : Option Marker}
    {more : BlockForest}
    {upper : Nat}
    (error : Option BlockError)
    (startLe : block.start.position.stop.offset ≤ upper)
    (childrenLie : LiesIn block.start.position.start.offset upper block.children)
    (moreLie : LiesIn block.start.position.start.offset upper more)
    (stopWithin : ∀ found, stop = some found →
      block.start.position.start.offset ≤ found.position.start.offset ∧
        found.position.stop.offset ≤ upper) :
    LiesIn block.start.position.start.offset upper (block.finish stop error more) := by
  intro found member
  rw [finish, markers_single, Block.markers, List.mem_append, List.mem_append] at member
  rcases member with (isStart | isStop) | isInner
  · obtain rfl : found = block.start := by simpa using isStart
    exact ⟨Nat.le_refl _, startLe⟩
  · exact stopWithin found (by simpa using isStop)
  · exact (childrenLie.append moreLie) found isInner

end OpenBlock

/-! ## What is open -/

namespace Nesting

open BlockForest

/-- What is finished lies behind the start of the open block that it is in and
before the start of the next open block, or before `upper` if there is none. -/
def IsLayered (upper : Nat) : List OpenEntry → BlockForest → Prop
  | [], finished => IsNested finished ∧ LiesIn 0 upper finished
  | .plainRegion :: rest, finished => IsLayered upper rest finished
  | .block block :: rest, finished =>
    (IsNested block.children ∧
      LiesIn block.start.position.stop.offset upper block.children ∧
      block.start.Extended ∧
      block.start.position.stop.offset ≤ upper) ∧
    IsLayered block.start.position.start.offset rest finished

theorem IsLayered.mono
    {upper upper' : Nat}
    {entries : List OpenEntry}
    {finished : BlockForest}
    (layered : IsLayered upper entries finished)
    (upperLe : upper ≤ upper') :
    IsLayered upper' entries finished := by
  induction entries with
  | nil => exact ⟨layered.1, layered.2.mono (Nat.le_refl _) upperLe⟩
  | cons entry rest inductionHypothesis =>
      cases entry with
      | plainRegion => exact inductionHypothesis layered
      | block block =>
          obtain ⟨⟨childrenNested, childrenLie, extended, startLe⟩, outer⟩ := layered
          exact
            ⟨⟨childrenNested, childrenLie.mono (Nat.le_refl _) upperLe, extended,
              Nat.le_trans startLe upperLe⟩, outer⟩

private theorem isLayered_append_plainRegion
    {upper : Nat}
    {inner outer : List OpenEntry}
    {finished : BlockForest}
    (layered : IsLayered upper (inner ++ .plainRegion :: outer) finished) :
    IsLayered upper (inner ++ outer) finished := by
  induction inner generalizing upper with
  | nil => exact layered
  | cons entry rest inductionHypothesis =>
      cases entry with
      | plainRegion => exact inductionHypothesis layered
      | block block => exact ⟨layered.1, inductionHypothesis layered.2⟩

private theorem isLayered_plainRegions_append
    {upper : Nat}
    (inner : List OpenEntry)
    {outer : List OpenEntry}
    {finished : BlockForest}
    (layered : IsLayered upper outer finished) :
    IsLayered upper (inner.filter (·.block?.isNone) ++ outer) finished := by
  induction inner with
  | nil => exact layered
  | cons entry rest inductionHypothesis =>
      cases entry with
      | plainRegion => exact inductionHypothesis
      | block block => exact inductionHypothesis

/-- Finished blocks may go behind all others within the innermost open block. -/
theorem isLayered_attach
    {middle upper : Nat}
    {done : BlockForest}
    {entries : List OpenEntry}
    {finished : BlockForest}
    (layered : IsLayered middle entries finished)
    (doneNested : IsNested done)
    (doneLies : LiesIn middle upper done)
    (middleLe : middle ≤ upper) :
    IsLayered upper (attach done entries finished).entries
      (attach done entries finished).finished := by
  induction entries with
  | nil =>
      obtain ⟨finishedNested, finishedLies⟩ := layered
      refine ⟨finishedNested.append finishedLies doneNested doneLies, ?_⟩
      exact
        (finishedLies.mono (Nat.le_refl _) middleLe).append
          (doneLies.mono (Nat.zero_le _) (Nat.le_refl _))
  | cons entry rest inductionHypothesis =>
      cases entry with
      | plainRegion => exact inductionHypothesis layered
      | block block =>
          obtain ⟨⟨childrenNested, childrenLie, extended, startLe⟩, outer⟩ := layered
          refine
            ⟨⟨childrenNested.append childrenLie doneNested doneLies, ?_, extended,
              Nat.le_trans startLe middleLe⟩, outer⟩
          exact
            (childrenLie.mono (Nat.le_refl _) middleLe).append
              (doneLies.mono startLe (Nat.le_refl _))

/-- The blocks that are ended together lie one within the other, and behind all
that is finished in what stays open. -/
theorem isLayered_collapse
    (error : BlockError)
    {middle upper : Nat}
    {innermost : BlockForest}
    {inner outer : List OpenEntry}
    {finished : BlockForest}
    (layered : IsLayered middle (inner ++ outer) finished)
    (innermostNested : IsNested innermost)
    (innermostLies : LiesIn middle upper innermost)
    (middleLe : middle ≤ upper) :
    ∃ lower,
      lower ≤ upper ∧
        IsLayered lower outer finished ∧
        IsNested (collapse error innermost inner) ∧
        LiesIn lower upper (collapse error innermost inner) := by
  induction inner generalizing middle innermost with
  | nil => exact ⟨middle, middleLe, layered, innermostNested, innermostLies⟩
  | cons entry rest inductionHypothesis =>
      cases entry with
      | plainRegion =>
          exact inductionHypothesis layered innermostNested innermostLies middleLe
      | block block =>
          obtain ⟨⟨childrenNested, childrenLie, extended, startLe⟩, outerLayered⟩ := layered
          have startBefore : block.start.position.start.offset ≤ middle := by
            unfold Marker.Extended at extended
            omega
          have blockNested : IsNested (block.finish none (some error) innermost) :=
            OpenBlock.isNested_finish _ childrenNested childrenLie innermostNested
              innermostLies startLe middleLe (by simp)
          have blockLies :
              LiesIn block.start.position.start.offset upper
                (block.finish none (some error) innermost) :=
            OpenBlock.liesIn_finish _ (Nat.le_trans startLe middleLe)
              (childrenLie.mono (Nat.le_of_lt extended) middleLe)
              (innermostLies.mono startBefore (Nat.le_refl _)) (by simp)
          exact
            inductionHypothesis outerLayered blockNested blockLies
              (Nat.le_trans startBefore middleLe)

def LayeredTo (upper : Nat) (nesting : Nesting) : Prop :=
  IsLayered upper nesting.entries nesting.finished

private theorem layeredTo_openBlock
    {strict : Bool}
    {nesting : Nesting}
    {start : Marker}
    (layered : nesting.LayeredTo start.position.start.offset)
    (extended : start.Extended) :
    (nesting.openBlock strict start).1.LayeredTo start.position.stop.offset :=
  ⟨⟨trivial, liesIn_nil _ _, extended, Nat.le_refl _⟩, layered⟩

private theorem layeredTo_close
    {strict : Bool}
    {nesting : Nesting}
    {stop : Marker}
    (layered : nesting.LayeredTo stop.position.start.offset)
    (extended : stop.Extended) :
    (nesting.close strict stop).1.LayeredTo stop.position.stop.offset := by
  have stopLe := Nat.le_of_lt extended
  rcases close_cases strict nesting stop with
    ⟨_, closed⟩ | ⟨inner, outer, split, _, _, closed⟩ | ⟨inner, block, outer, split, _, _, closed⟩
  · rw [closed]
    exact layered.mono stopLe
  · rw [closed]
    rw [LayeredTo, split] at layered
    exact (isLayered_append_plainRegion layered).mono stopLe
  · rw [closed]
    rw [LayeredTo, split] at layered
    obtain ⟨lower, lowerLe, blockLayered, innerNested, innerLies⟩ :=
      isLayered_collapse .outOfOrder layered isNested_nil (liesIn_nil _ _) (Nat.le_refl _)
    obtain ⟨⟨childrenNested, childrenLie, startExtended, startLe⟩, outerLayered⟩ :=
      blockLayered
    have startBefore : block.start.position.start.offset ≤ lower := by
      unfold Marker.Extended at startExtended
      omega
    have upperLe := Nat.le_trans lowerLe stopLe
    have doneNested : IsNested (Nesting.closed strict stop inner block) :=
      OpenBlock.isNested_finish _ childrenNested childrenLie innerNested innerLies
        startLe lowerLe (by simp)
    have doneLies :
        LiesIn block.start.position.start.offset stop.position.stop.offset
          (Nesting.closed strict stop inner block) :=
      OpenBlock.liesIn_finish _ (Nat.le_trans startLe upperLe)
        (childrenLie.mono (Nat.le_of_lt startExtended) upperLe)
        (innerLies.mono startBefore stopLe)
        (by
          rintro found ⟨⟩
          exact ⟨Nat.le_trans startBefore lowerLe, Nat.le_refl _⟩)
    exact
      isLayered_plainRegions_append inner
        (isLayered_attach outerLayered doneNested doneLies
          (Nat.le_trans startBefore upperLe))

private theorem isNested_finish
    {nesting : Nesting}
    {upper : Nat}
    (layered : nesting.LayeredTo upper) :
    IsNested nesting.finish.1 := by
  have whole : IsLayered upper (nesting.entries ++ []) nesting.finished := by
    rwa [List.append_nil]
  obtain ⟨lower, _, outer, innerNested, innerLies⟩ :=
    isLayered_collapse .unterminated whole isNested_nil (liesIn_nil _ _) (Nat.le_refl _)
  exact outer.1.append outer.2 innerNested innerLies

private theorem layeredTo_empty (upper : Nat) : empty.LayeredTo upper :=
  ⟨isNested_nil, liesIn_nil _ _⟩

/-- A step keeps the nesting layered if its marker lies behind all that is open
and finished. -/
theorem layeredTo_step
    {strict : Bool}
    {nesting : Nesting}
    {item : PairingItem}
    {lower upper : Nat}
    (layered : nesting.LayeredTo lower)
    (lowerLe : lower ≤ upper)
    (behind : ∀ found ∈ item.marker?,
      lower ≤ found.position.start.offset ∧ found.Extended ∧
        found.position.stop.offset ≤ upper) :
    (nesting.step strict item).1.LayeredTo upper := by
  cases item with
  | plainRegion => exact layered.mono lowerLe
  | marker found =>
      obtain ⟨lowerLe, extended, leUpper⟩ := behind found rfl
      have before : nesting.LayeredTo found.position.start.offset := layered.mono lowerLe
      cases keywordEq : found.keyword with
      | macroStart =>
          simp only [step, keywordEq]
          exact (layeredTo_openBlock before extended).mono leUpper
      | macroEnd =>
          simp only [step, keywordEq]
          exact (layeredTo_close before extended).mono leUpper

/-- Pairing markers that are in order keeps the nesting layered. -/
theorem layeredTo_after
    {strict : Bool}
    {items : List PairingItem}
    {upper : Nat}
    (inOrder : PairingItem.InOrder items)
    (upperLe : ∀ found ∈ PairingItem.markers items, found.position.stop.offset ≤ upper) :
    (after strict items).LayeredTo upper := by
  -- Whatever is an upper bound of the markers taken so far bounds the nesting.
  refine
    PairingItem.takingInduction
      (P := fun taken =>
        ∀ upper, (∀ found ∈ PairingItem.markers taken, found.position.stop.offset ≤ upper) →
          (after strict taken).LayeredTo upper)
      items (fun upper _ => layeredTo_empty upper) ?_ upper upperLe
  intro taken item back split layered upper upperLe
  rw [after_concat]
  cases item with
  | plainRegion =>
      refine layeredTo_step (layered upper ?_) (Nat.le_refl _) (by simp [PairingItem.marker?])
      intro found member
      exact upperLe found (by simpa [PairingItem.markers, PairingItem.marker?] using member)
  | marker next =>
      have nextMember : next ∈ PairingItem.markers items := by
        simp [← split, PairingItem.markers, PairingItem.marker?]
      have nextExtended := inOrder.extended next nextMember
      have nextLe : next.position.stop.offset ≤ upper :=
        upperLe next (by simp [PairingItem.markers, PairingItem.marker?])
      have takenBefore :
          ∀ found ∈ PairingItem.markers taken,
            found.position.stop.offset ≤ next.position.start.offset := by
        intro found member
        have before := inOrder.before
        rw [← split, PairingItem.markers, List.filterMap_append, List.pairwise_append]
          at before
        exact before.2.2 found member next (by simp [PairingItem.marker?])
      refine layeredTo_step (layered _ takenBefore) ?_ ?_
      · unfold Marker.Extended at nextExtended
        omega
      · rintro found ⟨⟩
        exact ⟨Nat.le_refl _, nextExtended, nextLe⟩

end Nesting

namespace Document

/-- The blocks of a document are strictly nested, and each that has an end has a
span between its markers. -/
structure IsNested (document : Document) : Prop where
  tree : BlockForest.IsNested document.tree
  contentSpan : ∀ block ∈ document.blocks, block.stop.isSome → block.contentSpan.isSome

private theorem isNested_of_tree
    {document : Document}
    (nested : BlockForest.IsNested document.tree) :
    document.IsNested := by
  refine ⟨nested, ?_⟩
  intro block member closed
  rw [blocks_eq_toList] at member
  obtain ⟨start, startEq, startBefore⟩ := nested.exists_start member
  obtain ⟨stop, stopEq⟩ := Option.isSome_iff_exists.1 closed
  have before := startBefore stop stopEq
  unfold Marker.Before at before
  simp [Block.contentSpan, startEq, stopEq, before]

theorem isNested_ofTrivia
    {source : Source}
    {trivia : List Trivia}
    (filePath : Text)
    (options : ParseOptions)
    (accepted : Trivia.firstFault? source.text trivia = none) :
    (ofTrivia filePath source trivia options).IsNested := by
  apply isNested_of_tree
  have inOrder := inOrder_pairingItems accepted
  obtain ⟨upper, upperLe⟩ :
      ∃ upper,
        ∀ found ∈ PairingItem.markers (pairingItems source trivia),
          found.position.stop.offset ≤ upper :=
    ⟨_, fun found member =>
      List.le_max?_getD_of_mem (k := 0)
        (List.mem_map_of_mem (f := (·.position.stop.offset)) member)⟩
  exact
    Nesting.isNested_finish
      (Nesting.layeredTo_after inOrder upperLe)

/-- The blocks of every document are strictly nested, whether its trivia is
extracted from the text or comes from a host and has no fault. -/
theorem strictly_nested (filePath : Text) (source : Source) (options : ParseOptions) :
    (parse filePath source options).IsNested ∧
      ∀ trivia,
        Trivia.firstFault? source.text trivia = none →
          ∃ document,
            parseWithTrivia filePath source trivia options = .ok document ∧
              document.IsNested := by
  refine
    ⟨isNested_ofTrivia filePath options (Trivia.firstFault?_extract source.text), ?_⟩
  intro trivia accepted
  refine ⟨_, ?_, isNested_ofTrivia filePath options accepted⟩
  simp only [parseWithTrivia, accepted]

/-- An end that closes a block from the middle of what is open: the region is
ended with the comment block around it. -/
def straddlingText : Text :=
  "// Macro A\n#region Macro R\n// EndMacro\n#endregion\n".toList

theorem strictly_nested_straddlingText :
    let trivia : List Trivia :=
      [⟨.lineComment, ⟨0, 10⟩⟩, ⟨.regionDirective, ⟨11, 26⟩⟩, ⟨.lineComment, ⟨27, 38⟩⟩,
        ⟨.endRegionDirective, ⟨39, 49⟩⟩]
    Trivia.firstFault? straddlingText trivia = none ∧
      ∃ document,
        parseWithTrivia [] (Source.ofText straddlingText) trivia .lenient = .ok document ∧
          document.IsNested := by
  have accepted :
      Trivia.firstFault? straddlingText
        [⟨.lineComment, ⟨0, 10⟩⟩, ⟨.regionDirective, ⟨11, 26⟩⟩, ⟨.lineComment, ⟨27, 38⟩⟩,
          ⟨.endRegionDirective, ⟨39, 49⟩⟩] = none := by
    decide +kernel
  exact ⟨accepted, (strictly_nested [] (Source.ofText straddlingText) .lenient).2 _ accepted⟩

end Document

end MacroRegions

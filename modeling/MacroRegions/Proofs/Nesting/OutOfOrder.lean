import MacroRegions.Proofs.Nesting.OneFamily

/-!
Blocks that are out of order.

A block is out of order when an end of the other family closes a block around it. The
end that would have been its own is not remembered. It is reported as unmatched if
nothing of its family is open any more, and else it closes the innermost of what was
open already when the block was opened.
-/

namespace MacroRegions

namespace Nesting

private theorem errorWith_tagProblem_ne
    {strict : Bool}
    {marker : Marker}
    {error : Option BlockError}
    (errorNe : error ≠ some .outOfOrder) :
    errorWith error (tagProblem strict marker) ≠ some .outOfOrder := by
  cases error with
  | some kind => exact errorNe
  | none =>
      unfold tagProblem
      split <;> simp [errorWith, ParseProblem.ofMarker]

end Nesting

def BlockRule.outOfOrderOpen (strict : Bool) : BlockRule strict where
  opened _ error := error ≠ some .outOfOrder
  done block := block.error = some .outOfOrder → block.stop = none
  opens _ := Nesting.errorWith_tagProblem_ne (by simp)
  closes _ _ _ errorNe _ outOfOrder := absurd outOfOrder (Nesting.errorWith_tagProblem_ne errorNe)
  drops _ _ _ _ := rfl
  ends _ _ _ _ := rfl

/-! ## Tracking a start -/

namespace Nesting

/-- Of the openers of its family, no more have come after `start` than the
single stack has above it, and the others were there before. -/
def Tracks
    (start : Marker)
    (base above openers : List (Option Marker)) :
    Prop :=
  ∃ inner outer,
    inner.length ≤ above.length ∧
      outer.Sublist base ∧
      (openers = inner ++ some start :: outer ∨ openers = inner ++ outer)

namespace Tracks

variable {start : Marker} {base above openers openers' : List (Option Marker)}

theorem cons
    (tracks : Tracks start base above openers)
    (opener : Option Marker) :
    Tracks start base (opener :: above) (opener :: openers) := by
  obtain ⟨inner, outer, lengthLe, outerSublist, rfl | rfl⟩ := tracks
  · exact ⟨opener :: inner, outer, by simpa using lengthLe, outerSublist, Or.inl rfl⟩
  · exact ⟨opener :: inner, outer, by simpa using lengthLe, outerSublist, Or.inr rfl⟩

theorem sublist
    (tracks : Tracks start base above openers)
    (dropped : openers'.Sublist openers) :
    Tracks start base above openers' := by
  obtain ⟨inner, outer, lengthLe, outerSublist, openersEq⟩ := tracks
  have innerLe : ∀ inner' : List (Option Marker),
      inner'.Sublist inner → inner'.length ≤ above.length :=
    fun inner' sublist => Nat.le_trans sublist.length_le lengthLe
  rcases openersEq with rfl | rfl
  · obtain ⟨inner', rest, rfl, innerSublist, restSublist⟩ := List.sublist_append_iff.1 dropped
    rcases List.sublist_cons_iff.1 restSublist with without | ⟨outer', rfl, outerSublist'⟩
    · exact
        ⟨inner', rest, innerLe inner' innerSublist, without.trans outerSublist, Or.inr rfl⟩
    · exact
        ⟨inner', outer', innerLe inner' innerSublist, outerSublist'.trans outerSublist,
          Or.inl rfl⟩
  · obtain ⟨inner', outer', rfl, innerSublist, outerSublist'⟩ :=
      List.sublist_append_iff.1 dropped
    exact
      ⟨inner', outer', innerLe inner' innerSublist, outerSublist'.trans outerSublist,
        Or.inr rfl⟩

/-- An end that takes an opener from above `start` off the single stack takes
no more than one that is open, unless `start` itself is innermost. -/
theorem tail
    {opener : Option Marker}
    (tracks : Tracks start base (opener :: above) openers)
    (notInnermost : ∀ outer, openers ≠ some start :: outer) :
    Tracks start base above openers.tail := by
  obtain ⟨inner, outer, lengthLe, outerSublist, openersEq⟩ := tracks
  cases inner with
  | nil =>
      rcases openersEq with rfl | rfl
      · exact absurd rfl (notInnermost outer)
      · exact
          ⟨[], openers.tail, Nat.zero_le _, (List.tail_sublist openers).trans outerSublist,
            Or.inr rfl⟩
  | cons first inner =>
      have lengthLe' : inner.length ≤ above.length := by simpa using lengthLe
      rcases openersEq with rfl | rfl
      · exact ⟨inner, outer, lengthLe', outerSublist, Or.inl rfl⟩
      · exact ⟨inner, outer, lengthLe', outerSublist, Or.inr rfl⟩

private theorem of_nil
    (tracks : Tracks start base [] openers)
    (notInnermost : ∀ outer, openers ≠ some start :: outer) :
    openers.Sublist base := by
  obtain ⟨inner, outer, lengthLe, outerSublist, openersEq⟩ := tracks
  obtain rfl := List.length_eq_zero_iff.1 (Nat.le_zero.1 lengthLe)
  rcases openersEq with rfl | rfl
  · exact absurd rfl (notInnermost outer)
  · exact outerSublist

end Tracks

private theorem notMem_openAlone_concat
    {start : Marker}
    {taken : List PairingItem}
    {item : PairingItem}
    (popped : some start ∉ start.family.openAlone taken)
    (itemNe : item ≠ .marker start) :
    some start ∉ start.family.openAlone (taken ++ [item]) := by
  rw [MarkerFamily.openAlone_concat]
  cases item with
  | plainRegion =>
      simp only [MarkerFamily.pairAlone]
      split <;> simp [popped]
  | marker found =>
      have foundNe : start ≠ found := fun same => itemNe (by rw [same])
      simp only [MarkerFamily.pairAlone]
      split
      · cases found.keyword with
        | macroStart => simp [foundNe, popped]
        | macroEnd => exact fun member => popped (List.mem_of_mem_tail member)
      · exact popped

/-- After some items that begin with `front` and `start`, the single stack has
taken `start` off, or the openers are tracked by what it has above `start`. -/
def IsTracked
    (strict : Bool)
    (front : List PairingItem)
    (start : Marker)
    (taken : List PairingItem) :
    Prop :=
  some start ∉ start.family.openAlone taken ∨
    ∃ above,
      start.family.openAlone taken = above ++ some start :: start.family.openAlone front ∧
        some start ∉ above ∧
        Tracks start ((after strict front).openersOf start.family) above
          ((after strict taken).openersOf start.family)

private theorem isTracked_start
    {start : Marker}
    (strict : Bool)
    (front : List PairingItem)
    (isStart : start.keyword = .macroStart) :
    IsTracked strict front start (front ++ [.marker start]) := by
  right
  refine ⟨[], ?_, by simp, [], _, Nat.zero_le _, List.Sublist.refl _, Or.inl ?_⟩
  · rw [MarkerFamily.openAlone_concat]
    simp [MarkerFamily.pairAlone, isStart]
  · rw [after_concat]
    simp [step, isStart, openBlock, openersOf, openers, OpenEntry.opener, openerFamily]

/-- An item keeps the openers tracked, unless it closes the block of `start`. -/
theorem IsTracked.concat
    {strict : Bool}
    {front taken : List PairingItem}
    {start : Marker}
    {item : PairingItem}
    (holds : IsTracked strict front start taken)
    (startNew : some start ∉ start.family.openAlone front)
    (itemNe : item ≠ .marker start)
    (notClosed : ∀ stop outer,
      item = .marker stop → stop.keyword = .macroEnd →
        (after strict taken).openersOf stop.family ≠ some start :: outer) :
    IsTracked strict front start (taken ++ [item]) := by
  rcases holds with popped | ⟨above, aloneEq, startNotAbove, tracks⟩
  · exact Or.inl (notMem_openAlone_concat popped itemNe)
  · unfold IsTracked
    rw [MarkerFamily.openAlone_concat, after_concat]
    rcases openersOf_step_cases strict (after strict taken) item start.family with
      same | ⟨found, rfl, otherFamily, dropped⟩
    · rw [same]
      cases item with
      | plainRegion =>
          right
          simp only [MarkerFamily.pairAlone]
          split
          · exact ⟨none :: above, by simp [aloneEq], by simp [startNotAbove], tracks.cons none⟩
          · exact ⟨above, aloneEq, startNotAbove, tracks⟩
      | marker found =>
          have foundNe : start ≠ found := fun same => itemNe (by rw [same])
          simp only [MarkerFamily.pairAlone]
          split
          next own =>
            cases keywordEq : found.keyword with
            | macroStart =>
                right
                exact
                  ⟨some found :: above, by simp [aloneEq], by simp [startNotAbove, foundNe],
                    tracks.cons (some found)⟩
            | macroEnd =>
                have notInnermost : ∀ outer,
                    (after strict taken).openersOf start.family ≠ some start :: outer := by
                  intro outer openersEq
                  rw [← own] at openersEq
                  exact notClosed found outer rfl keywordEq openersEq
                cases above with
                | nil =>
                    left
                    rw [aloneEq]
                    exact startNew
                | cons opener above =>
                    right
                    exact
                      ⟨above, by simp [aloneEq],
                        fun member => startNotAbove (List.mem_cons_of_mem _ member),
                        tracks.tail notInnermost⟩
          next => exact Or.inr ⟨above, aloneEq, startNotAbove, tracks⟩
    · right
      refine ⟨above, ?_, startNotAbove, tracks.sublist dropped⟩
      rw [← aloneEq]
      simp [MarkerFamily.pairAlone, otherFamily]

private theorem isTracked_after
    {strict : Bool}
    {items front middle back : List PairingItem}
    {start : Marker}
    (inOrder : PairingItem.InOrder items)
    (split : items = front ++ [.marker start] ++ middle ++ back)
    (isStart : start.keyword = .macroStart)
    (notClosed : ∀ stop outer, ¬Meets strict items stop (some start :: outer)) :
    IsTracked strict front start (front ++ [.marker start] ++ middle) := by
  have frontSplit : items = front ++ .marker start :: (middle ++ back) := by simp [split]
  have startNew : some start ∉ start.family.openAlone front := by
    intro member
    rw [frontSplit] at inOrder
    apply inOrder.notMem_front
    exact ((MarkerFamily.mem_openAlone_iff inOrder.of_append_left).1 member).1
  refine
    PairingItem.takingInductionFrom (P := IsTracked strict front start)
      (front ++ [.marker start]) middle (isTracked_start strict front isStart) ?_
  intro middle' item back' middleSplit holds
  have itemSplit :
      items = (front ++ [.marker start] ++ middle') ++ item :: (back' ++ back) := by
    rw [split, ← middleSplit]
    simp
  refine holds.concat startNew ?_ ?_
  · rintro rfl
    have lengthEq := congrArg List.length (inOrder.front_unique frontSplit itemSplit)
    simp only [List.length_append, List.length_cons, List.length_nil] at lengthEq
    omega
  · rintro stop outer rfl isEnd openersEq
    exact notClosed stop outer ⟨_, _, itemSplit, isEnd, openersEq⟩

/-- If a block never gets an end, then the end that the single stack of its
family gives it meets only what was open already before the block. -/
theorem sublist_openBefore
    {strict : Bool}
    {items : List PairingItem}
    {start stop : Marker}
    (inOrder : PairingItem.InOrder items)
    (isStart : start.keyword = .macroStart)
    (ownEnd : start.PairsAlone items stop)
    (notClosed : ∀ other outer, ¬Meets strict items other (some start :: outer)) :
    (openBefore strict items stop).Sublist (openBefore strict items start) := by
  have ⟨stopMember, isEnd, sameFamily, aloneHead⟩ := ownEnd
  have meets : Meets strict items stop (openBefore strict items stop) :=
    meets_openBefore stopMember isEnd
  obtain ⟨back, stopSplit⟩ := PairingItem.split_before stopMember
  have aloneMember : some start ∈ start.family.openAlone (PairingItem.before items stop) :=
    List.mem_of_head? aloneHead
  obtain ⟨front, middle, beforeSplit⟩ := List.append_of_mem ownEnd.start_mem_before
  have beforeSplit' :
      PairingItem.before items stop = front ++ [.marker start] ++ middle := by
    simp [beforeSplit]
  have split : items = front ++ [.marker start] ++ middle ++ .marker stop :: back := by
    rw [← beforeSplit']
    exact stopSplit
  have frontEq : PairingItem.before items start = front := by
    have startSplit :
        items = front ++ .marker start :: (middle ++ .marker stop :: back) := by
      simp [split]
    exact PairingItem.before_eq inOrder startSplit
  rcases isTracked_after inOrder split isStart notClosed with
    popped | ⟨above, aloneEq, startNotAbove, tracks⟩
  · rw [← beforeSplit'] at popped
    exact absurd aloneMember popped
  · rw [← beforeSplit'] at aloneEq tracks
    obtain rfl : above = [] := by
      cases above with
      | nil => rfl
      | cons opener above =>
          rw [aloneEq] at aloneHead
          obtain rfl : opener = some start := by simpa using aloneHead
          simp at startNotAbove
    have remaining :=
      tracks.of_nil
        (by
          intro outer openersEq
          refine notClosed stop outer ?_
          rw [← openersEq, ← sameFamily]
          exact meets)
    rw [openBefore, openBefore, frontEq, sameFamily]
    exact remaining

end Nesting

namespace Document

/-- The end that the single stack of its family gives a block that is out of
order closes only what was open already before the block, and is reported if
nothing of that is left. -/
theorem ownEnd_of_outOfOrder
    {input : Input}
    {options : ParseOptions}
    {document : Document}
    {block : Block}
    {start stop : Marker}
    (parsed : input.parse options = .ok document)
    (member : block ∈ document.blocks)
    (startEq : block.start = some start)
    (outOfOrder : block.error = some .outOfOrder)
    (ownEnd : start.PairsAlone input.items stop) :
    let strict := options.strictLocationTags
    let remaining := Nesting.openBefore strict input.items stop
    remaining.Sublist (Nesting.openBefore strict input.items start) ∧
      ((.ofMarker .unmatchedEnd stop ∈ document.problems ∧
          ∀ other ∈ document.blocks, other.stop ≠ some stop) ↔
        remaining = []) ∧
      ∀ opener outer,
        remaining = some opener :: outer →
          ∃ other ∈ document.blocks, other.start = some opener ∧ other.stop = some stop := by
  intro strict remaining
  obtain ⟨accepted, rfl⟩ := Input.parse_eq_ok_iff.1 parsed
  have inOrder : PairingItem.InOrder input.items := inOrder_pairingItems accepted
  have blockOpen : block.stop = none :=
    (BlockRule.outOfOrderOpen strict).done_of_mem_blocks member outOfOrder
  have isStart : start.keyword = .macroStart := by
    have startMember := List.mem_map_of_mem (f := (·.start)) member
    rw [starts_ofTrivia, startEq] at startMember
    obtain ⟨_, inStarts, rfl⟩ : ∃ found, found ∈ List.filter (·.isStart) _ ∧ found = start := by
      simpa only [List.mem_map, Option.some.injEq] using startMember
    exact of_decide_eq_true (List.mem_filter.1 inStarts).2
  have notClosed :
      ∀ other outer,
        ¬Nesting.Meets strict input.items other (some start :: outer) := by
    intro other outer meets
    obtain ⟨closed, closedMember, closedStart, closedStop⟩ :=
      exists_stop_iff.2 ⟨start, outer, rfl, meets⟩
    obtain rfl := eq_of_start_eq accepted closedMember member (closedStart.trans startEq.symm)
    simp [blockOpen] at closedStop
  have meets : Nesting.Meets strict input.items stop remaining :=
    Nesting.meets_openBefore ownEnd.1 ownEnd.2.1
  have meetsIff :
      ∀ openers, Nesting.Meets strict input.items stop openers ↔
        remaining = openers :=
    fun openers => ⟨meets.unique inOrder, fun openersEq => openersEq ▸ meets⟩
  refine ⟨Nesting.sublist_openBefore inOrder isStart ownEnd notClosed, ?_, ?_⟩
  · have reportedIff :
        .ofMarker .unmatchedEnd stop ∈
            (ofTrivia input.filePath input.source input.usedTrivia options).problems ↔
          remaining = [] :=
      (unmatchedEnd_mem_problems_iff accepted meets.mem).trans (meetsIff [])
    rw [reportedIff]
    refine ⟨And.left, ?_⟩
    intro nothingOpen
    refine ⟨nothingOpen, ?_⟩
    intro other otherMember stopEq
    obtain ⟨opener, outer, _, meetsBlock⟩ :=
      exists_stop_iff.1 ⟨other, otherMember, rfl, stopEq⟩
    have openersEq := (meetsIff _).1 meetsBlock
    simp [nothingOpen] at openersEq
  · intro opener outer openersEq
    exact exists_stop_iff.2 ⟨opener, outer, rfl, (meetsIff _).2 openersEq⟩

/-- A comment block within a region within a comment block, ended with the
region. -/
def enclosedText : Text :=
  "// Macro A\n#region Macro R\n// Macro B\n#endregion\n// EndMacro\n".toList

def enclosedInput : Input := ⟨[], Source.ofText enclosedText, none⟩

private theorem exists_outOfOrder_enclosedInput :
    let document := parse [] (Source.ofText enclosedText) .lenient
    ∃ block ∈ document.blocks,
      ∃ start ∈ PairingItem.markers enclosedInput.items,
        ∃ stop ∈ PairingItem.markers enclosedInput.items,
          block.start = some start ∧
            block.error = some .outOfOrder ∧
            start.PairsAlone enclosedInput.items stop ∧
            ∃ other ∈ document.blocks, other.stop = some stop := by
  decide +kernel

theorem ownEnd_of_outOfOrder_enclosedInput :
    ∃ document block start stop,
      enclosedInput.parse .lenient = .ok document ∧
        block ∈ document.blocks ∧
        block.start = some start ∧
        block.error = some .outOfOrder ∧
        start.PairsAlone enclosedInput.items stop ∧
        (Nesting.openBefore false enclosedInput.items stop).Sublist
          (Nesting.openBefore false enclosedInput.items start) ∧
        Nesting.openBefore false enclosedInput.items stop ≠ [] := by
  obtain
    ⟨block, member, start, _, stop, _, startEq, outOfOrder, ownEnd, other, otherMember,
      otherStop⟩ := exists_outOfOrder_enclosedInput
  have parsed :
      enclosedInput.parse .lenient =
        .ok (Document.parse [] (Source.ofText enclosedText) .lenient) :=
    rfl
  have fate := ownEnd_of_outOfOrder parsed member startEq outOfOrder ownEnd
  refine ⟨_, block, start, stop, rfl, member, startEq, outOfOrder, ownEnd, fate.1, ?_⟩
  intro nothingOpen
  exact (fate.2.1.2 nothingOpen).2 other otherMember otherStop

/-- The end of a block that is out of order may close the block around it. -/
theorem not_ownEnd_unmatched :
    ¬∀ (input : Input) options document block start stop,
      input.parse options = .ok document →
        block ∈ document.blocks →
          block.start = some start →
            block.error = some .outOfOrder →
              start.PairsAlone input.items stop →
                .ofMarker .unmatchedEnd stop ∈ document.problems ∧
                  ∀ other ∈ document.blocks, other.stop ≠ some stop := by
  intro reported
  obtain
    ⟨block, member, start, _, stop, _, startEq, outOfOrder, ownEnd, other, otherMember,
      otherStop⟩ := exists_outOfOrder_enclosedInput
  have fate :=
    reported enclosedInput .lenient _ block start stop rfl member startEq outOfOrder ownEnd
  exact fate.2 other otherMember otherStop

end Document

end MacroRegions

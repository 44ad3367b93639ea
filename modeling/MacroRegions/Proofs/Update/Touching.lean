import MacroRegions.Proofs.Update.Order
import MacroRegions.Proofs.Update.Replacement

/-!
Edits that touch.

Spans that do not overlap may still begin at one place: an insertion, and a
replacement of what stands behind it. All the edits together have one meaning, in
which the insertion comes first, but the edits are made one after the other, and of
two that begin at one place the one that is listed first. An insertion listed before
the replacement has been made when the replacement counts its bytes, and these are
then bytes of what was inserted.
-/

namespace MacroRegions.TextEdit

def makeInTurn? (made : List TextEdit) (text : Text) : Option Text :=
  made.foldlM (fun current edit => edit.perform? current) text

private theorem applyAll?_eq_makeInTurn? (listed : List TextEdit) (text : Text) :
    applyAll? listed text = makeInTurn? (listed.mergeSort startsAtOrBehind) text := rfl

/-- Edits listed from the last to the first are made as they are listed. -/
theorem applyAll?_of_pairwise
    {listed : List TextEdit}
    (backwards : listed.Pairwise fun first second => startsAtOrBehind first second = true)
    (text : Text) :
    applyAll? listed text = makeInTurn? listed text := by
  rw [applyAll?_eq_makeInTurn?, List.mergeSort_of_pairwise backwards]

private theorem makeInTurn?_nil (text : Text) : makeInTurn? [] text = some text := rfl

private theorem makeInTurn?_cons (edit : TextEdit) (later : List TextEdit) (text : Text) :
    makeInTurn? (edit :: later) text = (edit.perform? text).bind (makeInTurn? later) := rfl

private theorem makeInTurn?_append (made later : List TextEdit) (text : Text) :
    makeInTurn? (made ++ later) text = (makeInTurn? made text).bind (makeInTurn? later) :=
  List.foldlM_append

/-- An edit leaves what stands before it. -/
theorem exists_of_perform?
    {edit : TextEdit}
    {front rest result : Text}
    (behind : Text.byteSize front ≤ edit.span.start)
    (performed : edit.perform? (front ++ rest) = some result) :
    ∃ rest', result = front ++ rest' := by
  rw [perform?] at performed
  split at performed
  · obtain ⟨before, taken, performed⟩ := Option.bind_eq_some_iff.1 performed
    obtain ⟨after, _, performed⟩ := Option.bind_eq_some_iff.1 performed
    obtain ⟨tail, sameText, size⟩ := Text.takeBytes?_eq_some_iff.1 taken
    obtain ⟨middle, rfl, _⟩ := Text.exists_append_of_le sameText (by rw [size]; exact behind)
    refine ⟨middle ++ edit.replacement ++ after, ?_⟩
    rw [← Option.some.inj performed]
    simp
  · exact ⟨rest, (Option.some.inj performed).symm⟩

/-- Edits leave what stands before all of them. -/
theorem exists_of_makeInTurn?
    {made : List TextEdit}
    {front rest result : Text}
    (behind : ∀ edit ∈ made, Text.byteSize front ≤ edit.span.start)
    (performed : makeInTurn? made (front ++ rest) = some result) :
    ∃ rest', result = front ++ rest' := by
  induction made generalizing rest with
  | nil => exact ⟨rest, (Option.some.inj performed).symm⟩
  | cons edit later inductionHypothesis =>
      rw [makeInTurn?_cons] at performed
      obtain ⟨current, first, last⟩ := Option.bind_eq_some_iff.1 performed
      obtain ⟨rest', rfl⟩ := exists_of_perform? (behind edit List.mem_cons_self) first
      exact
        inductionHypothesis (fun other member => behind other (List.mem_cons_of_mem _ member))
          last

/-- Edits made behind a part of the text come to a text that begins with it, and
to this the later ones are made. -/
theorem makeInTurn?_append_iff
    {made later : List TextEdit}
    {front rest result : Text}
    (behind : ∀ edit ∈ made, Text.byteSize front ≤ edit.span.start) :
    makeInTurn? (made ++ later) (front ++ rest) = some result ↔
      ∃ rest',
        makeInTurn? made (front ++ rest) = some (front ++ rest') ∧
          makeInTurn? later (front ++ rest') = some result := by
  rw [makeInTurn?_append, Option.bind_eq_some_iff]
  constructor
  · intro performed
    obtain ⟨current, first, last⟩ := performed
    obtain ⟨rest', rfl⟩ := exists_of_makeInTurn? behind first
    exact ⟨rest', first, last⟩
  · intro performed
    obtain ⟨rest', first, last⟩ := performed
    exact ⟨front ++ rest', first, last⟩

/-- The replacement that an insertion touches, made after the insertion. -/
theorem perform?_behind_insertion_iff
    {front inserted old rest new result : Text} :
    (⟨⟨Text.byteSize front, Text.byteSize front + Text.byteSize old⟩, new⟩ :
        TextEdit).perform? (front ++ inserted ++ old ++ rest) = some result ↔
      ∃ left,
        Text.dropBytes? (Text.byteSize old) (inserted ++ old) = some left ∧
          result = front ++ new ++ left ++ rest := by
  have bounds :
      (decide (Text.byteSize front ≤ Text.byteSize front + Text.byteSize old) &&
        decide (Text.byteSize front + Text.byteSize old ≤
          Text.byteSize (front ++ inserted ++ old ++ rest))) = true := by
    simp only [Text.byteSize_append, Bool.and_eq_true, decide_eq_true_eq]
    omega
  have taken :
      Text.takeBytes? (Text.byteSize front) (front ++ inserted ++ old ++ rest) = some front :=
    Text.takeBytes?_eq_some_iff.2 ⟨inserted ++ old ++ rest, by simp, rfl⟩
  rw [perform?, if_pos bounds, taken, Option.bind_eq_bind, Option.bind_some,
    Option.bind_eq_some_iff]
  constructor
  · intro performed
    obtain ⟨after, dropped, performed⟩ := performed
    obtain ⟨eaten, sameText, size⟩ := Text.dropBytes?_eq_some_iff.1 dropped
    simp only at size
    rw [List.append_assoc, List.append_assoc] at sameText
    obtain ⟨middle, rfl, rest_eq⟩ := Text.exists_append_of_le sameText (by omega)
    rw [← List.append_assoc] at rest_eq
    rw [Text.byteSize_append, Nat.add_left_cancel_iff] at size
    obtain ⟨left, split, rfl⟩ :=
      Text.exists_append_of_le rest_eq.symm (by rw [Text.byteSize_append]; omega)
    refine ⟨left, Text.dropBytes?_eq_some_iff.2 ⟨middle, split, size⟩, ?_⟩
    rw [← Option.some.inj performed]
    simp
  · intro spared
    obtain ⟨left, dropped, rfl⟩ := spared
    obtain ⟨eaten, split, size⟩ := Text.dropBytes?_eq_some_iff.1 dropped
    refine ⟨left ++ rest, Text.dropBytes?_eq_some_iff.2 ⟨front ++ eaten, ?_, ?_⟩, by simp⟩
    · rw [List.append_assoc front, split]
      simp
    · rw [Text.byteSize_append, size]

/-! ## All the edits -/

/-- It makes no difference that a replacement counts its bytes from the beginning
of what has been inserted: what it leaves of that, and of the bytes it was to
replace, comes to the same. -/
def Commutes (text : Text) (insertion replacement : TextEdit) : Prop :=
  ∃ old,
    Text.slice? replacement.span.start replacement.span.stop text = some old ∧
      ∃ left,
        Text.dropBytes? (Text.byteSize old) (insertion.replacement ++ old) = some left ∧
          replacement.replacement ++ left = insertion.replacement ++ replacement.replacement

/-- If the one edit is an insertion where the other begins, the two commute. -/
def Spares (text : Text) (first second : TextEdit) : Prop :=
  first.InsertsAt second → first.Commutes text second

private theorem spares_of_liesBefore
    {text : Text}
    {first second : TextEdit}
    (before : second.LiesBefore first)
    (ascends : second.Ascends) :
    Spares text first second := by
  intro inserts
  obtain ⟨⟨start, stop⟩, new⟩ := second
  obtain ⟨⟨firstStart, firstStop⟩, firstNew⟩ := first
  simp only [InsertsAt, LiesBefore, Ascends, Span.mk.injEq, ne_eq] at inserts before ascends
  omega

/-- An edit made last, with all others behind it. -/
theorem makeInTurn?_concat_iff
    {made : List TextEdit}
    {front old new rest rest' : Text}
    (behind : ∀ edit ∈ made, Text.byteSize (front ++ old) ≤ edit.span.start) :
    makeInTurn?
          (made ++ [⟨⟨Text.byteSize front, Text.byteSize front + Text.byteSize old⟩, new⟩])
          (front ++ old ++ rest) =
        some (front ++ new ++ rest') ↔
      makeInTurn? made (front ++ old ++ rest) = some (front ++ old ++ rest') := by
  rw [makeInTurn?_append_iff behind]
  simp only [makeInTurn?_cons, perform?_append, Option.bind_some, makeInTurn?_nil,
    Option.some.injEq, List.append_cancel_left_eq]
  simp

/-- An insertion and the replacement that it touches made last, with all others
behind them. -/
theorem makeInTurn?_concat_insertion_iff
    {made : List TextEdit}
    {front inserted old new rest rest' : Text}
    (behind : ∀ edit ∈ made, Text.byteSize (front ++ old) ≤ edit.span.start) :
    makeInTurn?
          (made ++
            [⟨⟨Text.byteSize front, Text.byteSize front⟩, inserted⟩,
              ⟨⟨Text.byteSize front, Text.byteSize front + Text.byteSize old⟩, new⟩])
          (front ++ old ++ rest) =
        some (front ++ inserted ++ new ++ rest') ↔
      makeInTurn? made (front ++ old ++ rest) = some (front ++ old ++ rest') ∧
        ∃ left,
          Text.dropBytes? (Text.byteSize old) (inserted ++ old) = some left ∧
            new ++ left = inserted ++ new := by
  have inserts (rest : Text) :
      (⟨⟨Text.byteSize front, Text.byteSize front⟩, inserted⟩ : TextEdit).perform?
          (front ++ old ++ rest) =
        some (front ++ inserted ++ old ++ rest) := by
    have performed := perform?_append front [] (old ++ rest) inserted
    simpa using performed
  rw [makeInTurn?_append_iff behind]
  simp only [makeInTurn?_cons, inserts, Option.bind_some, makeInTurn?_nil,
    Option.bind_eq_some_iff, perform?_behind_insertion_iff, Option.some.injEq]
  constructor
  · intro performed
    obtain ⟨later, first, _, ⟨left, dropped, rfl⟩, last⟩ := performed
    have sameText : (new ++ left) ++ later = (inserted ++ new) ++ rest' := by
      simpa using last
    have sameSize : Text.byteSize (new ++ left) = Text.byteSize (inserted ++ new) := by
      obtain ⟨eaten, split, size⟩ := Text.dropBytes?_eq_some_iff.1 dropped
      have sizes := congrArg Text.byteSize split
      simp only [Text.byteSize_append] at sizes ⊢
      omega
    obtain ⟨commutes, rfl⟩ := Text.eq_of_byteSize_eq sameText sameSize
    exact ⟨first, left, dropped, commutes⟩
  · intro spared
    obtain ⟨first, left, dropped, commutes⟩ := spared
    refine ⟨rest', first, _, ⟨left, dropped, rfl⟩, ?_⟩
    rw [List.append_assoc front new, commutes]
    simp

/-- An edit that is made after all behind it touches no earlier insertion. -/
theorem pairwise_spares_concat_iff
    {text : Text}
    {edit : TextEdit}
    {made : List TextEdit}
    (before : ∀ later ∈ made, edit.LiesBefore later)
    (ascends : edit.Ascends) :
    (made ++ [edit]).Pairwise (Spares text) ↔ made.Pairwise (Spares text) := by
  rw [List.pairwise_append]
  constructor
  · intro paired
    exact paired.1
  · intro paired
    refine ⟨paired, List.pairwise_singleton _ _, ?_⟩
    intro later member last lastMember
    rw [List.mem_singleton.1 lastMember]
    exact spares_of_liesBefore (before later member) ascends

theorem pairwise_spares_concat_insertion_iff
    {text : Text}
    {insertion replacement : TextEdit}
    {made : List TextEdit}
    (inserts : insertion.InsertsAt replacement)
    (insertionBefore : ∀ later ∈ made, insertion.LiesBefore later)
    (replacementBefore : ∀ later ∈ made, replacement.LiesBefore later)
    (ascends : replacement.Ascends) :
    (made ++ [insertion, replacement]).Pairwise (Spares text) ↔
      made.Pairwise (Spares text) ∧ insertion.Commutes text replacement := by
  rw [List.pairwise_append, List.pairwise_pair]
  constructor
  · intro paired
    exact ⟨paired.1, paired.2.1 inserts⟩
  · intro paired
    refine ⟨paired.1, fun _ => paired.2, ?_⟩
    intro later member last lastMember
    rcases List.mem_cons.1 lastMember with rfl | lastMember
    · exact spares_of_liesBefore (insertionBefore later member) inserts.ascends
    · rw [List.mem_singleton.1 lastMember]
      exact spares_of_liesBefore (replacementBefore later member) ascends

/-- What an insertion does and the replacement that it touches, and what the other
edits do behind them. -/
theorem Replaces.exists_of_insertion
    {front text text' : Text}
    {insertion replacement : TextEdit}
    {others : List TextEdit}
    (replaced :
      Replaces (Text.byteSize front) (insertion :: replacement :: others) text text')
    (inserts : insertion.InsertsAt replacement) :
    ∃ kept inserted old new rest rest',
      insertion = ⟨⟨Text.byteSize (front ++ kept), Text.byteSize (front ++ kept)⟩, inserted⟩ ∧
        replacement =
            ⟨⟨Text.byteSize (front ++ kept), Text.byteSize (front ++ kept) + Text.byteSize old⟩,
              new⟩ ∧
          text = kept ++ old ++ rest ∧
            text' = kept ++ inserted ++ new ++ rest' ∧
              Replaces (Text.byteSize (front ++ kept ++ old)) others rest rest' := by
  obtain ⟨kept, none, inserted, _, _, rfl, rfl, rfl, replacementReplaced⟩ :=
    replaced.exists_of_cons
  obtain ⟨kept', old, new, rest, rest', rfl, rfl, rfl, laterReplaced⟩ :=
    replacementReplaced.exists_of_cons
  -- the insertion replaces nothing, and nothing is kept behind it
  have startEq := inserts.start_eq
  simp only [Text.byteSize_append] at startEq
  obtain rfl : none = [] := Text.eq_nil_of_byteSize_eq_zero (by omega)
  obtain rfl : kept' = [] := Text.eq_nil_of_byteSize_eq_zero (by omega)
  rw [List.append_nil, List.append_nil] at laterReplaced ⊢
  exact
    ⟨kept, inserted, old, new, rest, rest', rfl, rfl, by simp, by simp, laterReplaced⟩

theorem commutes_iff
    {front old rest inserted new : Text}
    {span : Span} :
    Commutes (front ++ old ++ rest) ⟨span, inserted⟩
        ⟨⟨Text.byteSize front, Text.byteSize front + Text.byteSize old⟩, new⟩ ↔
      ∃ left,
        Text.dropBytes? (Text.byteSize old) (inserted ++ old) = some left ∧
          new ++ left = inserted ++ new := by
  have sliced :
      Text.slice? (Text.byteSize front) (Text.byteSize front + Text.byteSize old)
          (front ++ old ++ rest) =
        some old :=
    Text.slice?_eq_some_iff.2 ⟨front, rest, rfl, rfl, rfl⟩
  simp only [Commutes, sliced, Option.some.injEq, exists_eq_left']

/-- Edits that do not overlap, made in any order in which sorting can bring
them, come to the text with all spans replaced exactly if every insertion made
too early spares the replacement that it touches. -/
theorem MadeAs.makeInTurn?_iff
    {ordered made : List TextEdit}
    {front text text' : Text}
    (madeAs : MadeAs ordered made)
    (inOrder : ordered.Pairwise LiesBefore)
    (replaced : Replaces (Text.byteSize front) ordered text text') :
    makeInTurn? made (front ++ text) = some (front ++ text') ↔
      made.Pairwise (Spares (front ++ text)) := by
  induction madeAs generalizing front text text' with
  | none =>
      cases replaced
      simp [makeInTurn?_nil]
  | @last edit ordered made madeAs inductionHypothesis =>
      obtain ⟨editBefore, laterInOrder⟩ := List.pairwise_cons.1 inOrder
      obtain ⟨kept, old, new, rest, rest', rfl, rfl, rfl, laterReplaced⟩ :=
        replaced.exists_of_cons
      have before := fun later member => editBefore later (madeAs.perm.subset member)
      have behind : ∀ later ∈ made,
          Text.byteSize (front ++ kept ++ old) ≤ later.span.start := by
        intro later member
        rw [Text.byteSize_append]
        exact (before later member).1
      have earlier := inductionHypothesis laterInOrder laterReplaced
      rw [← List.append_assoc, ← List.append_assoc, ← List.append_assoc, ← List.append_assoc,
        makeInTurn?_concat_iff behind, earlier,
        pairwise_spares_concat_iff before (Nat.le_add_right _ _)]
  | @insertionFirst insertion replacement ordered made inserts madeAs inductionHypothesis =>
      obtain ⟨insertionBefore, replacementInOrder⟩ := List.pairwise_cons.1 inOrder
      obtain ⟨replacementBefore, laterInOrder⟩ := List.pairwise_cons.1 replacementInOrder
      obtain ⟨kept, inserted, old, new, rest, rest', rfl, rfl, rfl, rfl, laterReplaced⟩ :=
        replaced.exists_of_insertion inserts
      have insertionEarlier := fun later member =>
        insertionBefore later (List.mem_cons_of_mem _ (madeAs.perm.subset member))
      have before := fun later member => replacementBefore later (madeAs.perm.subset member)
      have behind : ∀ later ∈ made,
          Text.byteSize (front ++ kept ++ old) ≤ later.span.start := by
        intro later member
        rw [Text.byteSize_append]
        exact (before later member).1
      have earlier := inductionHypothesis laterInOrder laterReplaced
      rw [← List.append_assoc, ← List.append_assoc, ← List.append_assoc, ← List.append_assoc,
        ← List.append_assoc, makeInTurn?_concat_insertion_iff behind, earlier,
        pairwise_spares_concat_insertion_iff inserts insertionEarlier before
          (Nat.le_add_right _ _),
        commutes_iff]

/-- What edits that do not overlap mean all together: every span replaced, in
the order of their places. -/
def ReplacesAll (edits : List TextEdit) (text text' : Text) : Prop :=
  ∃ ordered : List TextEdit,
    ordered.Perm edits ∧ ordered.Pairwise LiesBefore ∧ Replaces 0 ordered text text'

theorem IsSliceOf.ascends
    {offset : Nat}
    {text : Text}
    {edit : TextEdit}
    (slice : edit.IsSliceOf offset text) :
    edit.Ascends := by
  obtain ⟨front, old, back, _, spanEq⟩ := slice
  rw [Ascends, spanEq]
  exact Nat.le_add_right _ _

/-- Edits that do not overlap have one meaning. Made one after the other, they
come to it exactly if every insertion that is listed before the replacement of
what stands behind it commutes with it. -/
theorem applyAll?_eq_some_iff_pairwise_spares
    {edits : List TextEdit}
    {text : Text}
    (slices : ∀ edit ∈ edits, (Text.slice? edit.span.start edit.span.stop text).isSome)
    (noOverlap : edits.Pairwise NoOverlap) :
    ∃ text',
      (∀ found, ReplacesAll edits text found ↔ found = text') ∧
        ∀ listed : List TextEdit, listed.Perm edits →
          (applyAll? listed text = some text' ↔ listed.Pairwise (Spares text)) := by
  have ascends : ∀ edit ∈ edits, edit.Ascends :=
    fun edit member => (isSliceOf_zero_iff.2 (slices edit member)).ascends
  obtain ⟨ordered, perm, inOrder⟩ := exists_perm_liesBefore ascends noOverlap
  have orderedAscends : ∀ edit ∈ ordered, edit.Ascends :=
    fun edit member => ascends edit (perm.subset member)
  obtain ⟨text', replaced⟩ :=
    exists_replaces_of_stops (inOrder.imp And.left) 0 text
      (fun edit member => isSliceOf_zero_iff.2 (slices edit (perm.subset member)))
  refine ⟨text', ?_, ?_⟩
  · intro found
    constructor
    · intro replacesAll
      obtain ⟨ordered', perm', inOrder', replaced'⟩ := replacesAll
      obtain rfl :=
        eq_of_pairwise_liesBefore orderedAscends inOrder inOrder' (perm.trans perm'.symm)
      exact replaced'.unique replaced
    · intro foundEq
      rw [foundEq]
      exact ⟨ordered, perm, inOrder, replaced⟩
  · intro listed listedPerm
    have madeAs : MadeAs ordered (listed.mergeSort startsAtOrBehind) :=
      madeAs_of_perm orderedAscends inOrder (pairwise_mergeSort listed)
        ((List.mergeSort_perm _ _).trans (listedPerm.trans perm.symm))
    have made :
        makeInTurn? (listed.mergeSort startsAtOrBehind) ([] ++ text) = some ([] ++ text') ↔
          (listed.mergeSort startsAtOrBehind).Pairwise (Spares ([] ++ text)) :=
      madeAs.makeInTurn?_iff inOrder replaced
    have begins {first second : TextEdit} (different : first.span.start ≠ second.span.start) :
        Spares text first second :=
      fun inserts => absurd inserts.start_eq different
    rw [applyAll?_eq_makeInTurn?]
    exact made.trans (pairwise_mergeSort_iff begins listed)

/-- Insertions at the beginning and at the end of what is replaced. -/
def touchingEdits : List TextEdit :=
  [⟨⟨1, 3⟩, "Z".toList⟩, ⟨⟨1, 1⟩, "xy".toList⟩, ⟨⟨3, 3⟩, "w".toList⟩]

theorem applyAll?_touchingEdits :
    (∀ edit ∈ touchingEdits,
        (Text.slice? edit.span.start edit.span.stop "abcd".toList).isSome) ∧
      touchingEdits.Pairwise NoOverlap ∧
        ∃ text',
          (∀ found, ReplacesAll touchingEdits "abcd".toList found ↔ found = text') ∧
            ∀ listed : List TextEdit, listed.Perm touchingEdits →
              (applyAll? listed "abcd".toList = some text' ↔
                listed.Pairwise (Spares "abcd".toList)) := by
  have slices : ∀ edit ∈ touchingEdits,
      (Text.slice? edit.span.start edit.span.stop "abcd".toList).isSome := by
    decide
  have noOverlap : touchingEdits.Pairwise NoOverlap := by
    decide
  exact ⟨slices, noOverlap, applyAll?_eq_some_iff_pairwise_spares slices noOverlap⟩

/-- An insertion, listed before the replacement of what stands behind it. -/
def insertedFirst : List TextEdit :=
  [⟨⟨1, 1⟩, "xy".toList⟩, ⟨⟨1, 3⟩, "Z".toList⟩]

/-- The replacement removes what was inserted, and in the other order it does
not. -/
theorem not_applyAll?_insertedFirst :
    (∀ edit ∈ insertedFirst,
        (Text.slice? edit.span.start edit.span.stop "abcd".toList).isSome) ∧
      insertedFirst.Pairwise NoOverlap ∧
        ReplacesAll insertedFirst "abcd".toList "axyZd".toList ∧
          applyAll? insertedFirst "abcd".toList = some "aZbcd".toList ∧
            applyAll? insertedFirst.reverse "abcd".toList = some "axyZd".toList := by
  refine ⟨by decide, by decide, ⟨insertedFirst, .refl _, by decide, ?_⟩, ?_, ?_⟩
  · exact .edit 0 ['a'] [] ['x', 'y'] _ _ _ (.edit 1 [] ['b', 'c'] ['Z'] ['d'] _ _ (.done 3 _))
  · rw [applyAll?_of_pairwise (by decide)]
    decide
  · rw [applyAll?_of_pairwise (by decide)]
    decide

end MacroRegions.TextEdit

import MacroRegions.Update.Edit

/-!
Edits that begin at different places of a text.

Such edits are made from the last to the first, in whatever order they are listed.
-/

namespace MacroRegions.TextEdit

def StartsBefore (first second : TextEdit) : Prop :=
  first.span.start < second.span.start

instance : DecidableRel StartsBefore :=
  fun first second => inferInstanceAs (Decidable (first.span.start < second.span.start))

theorem perform?_append (front old back new : Text) :
    (⟨⟨Text.byteSize front, Text.byteSize front + Text.byteSize old⟩, new⟩ :
        TextEdit).perform? (front ++ old ++ back) =
      some (front ++ new ++ back) := by
  have within :
      Text.byteSize front + Text.byteSize old ≤ Text.byteSize (front ++ old ++ back) := by
    simp only [Text.byteSize_append]
    omega
  have taken :
      Text.takeBytes? (Text.byteSize front) (front ++ old ++ back) = some front :=
    Text.takeBytes?_eq_some_iff.2 ⟨old ++ back, by simp, rfl⟩
  have dropped :
      Text.dropBytes? (Text.byteSize front + Text.byteSize old) (front ++ old ++ back) =
        some back :=
    Text.dropBytes?_eq_some_iff.2 ⟨front ++ old, rfl, Text.byteSize_append front old⟩
  have bounds :
      (decide (Text.byteSize front ≤ Text.byteSize front + Text.byteSize old) &&
        decide (Text.byteSize front + Text.byteSize old ≤
          Text.byteSize (front ++ old ++ back))) = true := by
    rw [decide_eq_true (Nat.le_add_right _ _), decide_eq_true within, Bool.and_self]
  rw [perform?, if_pos bounds, taken, dropped]
  rfl

theorem applyAll?_nil (text : Text) : applyAll? [] text = some text := by
  simp [applyAll?]

theorem eq_of_start_eq
    {edits : List TextEdit}
    {first second : TextEdit}
    (ordered : edits.Pairwise StartsBefore)
    (firstMember : first ∈ edits)
    (secondMember : second ∈ edits)
    (startEq : first.span.start = second.span.start) :
    first = second := by
  induction ordered with
  | nil => simp at firstMember
  | @cons edit others before _ inductionHypothesis =>
      rcases List.mem_cons.1 firstMember with rfl | firstLater
      · rcases List.mem_cons.1 secondMember with rfl | secondLater
        · rfl
        · have earlier := before second secondLater
          unfold StartsBefore at earlier
          omega
      · rcases List.mem_cons.1 secondMember with rfl | secondLater
        · have earlier := before first firstLater
          unfold StartsBefore at earlier
          omega
        · exact inductionHypothesis firstLater secondLater

theorem startsAtOrBehind_trans (first second third : TextEdit) :
    startsAtOrBehind first second = true →
      startsAtOrBehind second third = true →
        startsAtOrBehind first third = true := by
  simp only [startsAtOrBehind, decide_eq_true_eq]
  omega

theorem startsAtOrBehind_total (first second : TextEdit) :
    (startsAtOrBehind first second || startsAtOrBehind second first) = true := by
  simp only [startsAtOrBehind, Bool.or_eq_true, decide_eq_true_eq]
  omega

/-- Edits are made from the last to the first. -/
theorem pairwise_mergeSort (edits : List TextEdit) :
    (edits.mergeSort startsAtOrBehind).Pairwise fun first second =>
      startsAtOrBehind first second = true :=
  List.pairwise_mergeSort startsAtOrBehind_trans startsAtOrBehind_total edits

/-- Edits that begin at different places are sorted in one way only. -/
theorem mergeSort_eq_reverse
    {edits ordered : List TextEdit}
    (inOrder : ordered.Pairwise StartsBefore)
    (listed : edits.Perm ordered) :
    edits.mergeSort startsAtOrBehind = ordered.reverse := by
  have sortedPerm : (edits.mergeSort startsAtOrBehind).Perm ordered.reverse :=
    ((List.mergeSort_perm edits startsAtOrBehind).trans listed).trans
      (List.reverse_perm ordered).symm
  have reversed :
      ordered.reverse.Pairwise fun first second => startsAtOrBehind first second = true := by
    rw [List.pairwise_reverse]
    refine inOrder.imp ?_
    intro first second before
    exact decide_eq_true (Nat.le_of_lt before)
  refine List.Perm.eq_of_pairwise ?_ (pairwise_mergeSort edits) reversed sortedPerm
  intro first second firstMember secondMember behind before
  simp only [startsAtOrBehind, decide_eq_true_eq] at behind before
  exact
    eq_of_start_eq inOrder (List.mem_reverse.1 (sortedPerm.subset firstMember))
      (List.mem_reverse.1 secondMember) (Nat.le_antisymm before behind)

/-- Edits that begin at different places are made from the last to the first. -/
theorem applyAll?_eq_of_perm
    {edits ordered : List TextEdit}
    (inOrder : ordered.Pairwise StartsBefore)
    (listed : edits.Perm ordered)
    (text : Text) :
    applyAll? edits text =
      ordered.reverse.foldlM (fun current edit => edit.perform? current) text := by
  rw [applyAll?, mergeSort_eq_reverse inOrder listed]

end MacroRegions.TextEdit

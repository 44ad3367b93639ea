import MacroRegions.Trivia.Lexeme
import MacroRegions.Trivia.Validation

/-!
The order of trivia.

Trivia without a fault lies in the text from front to back, each span holding text of
the shape of its kind. The trivia which lexing finds is always of this sort.
-/

namespace MacroRegions

namespace Trivia

def Holds (text : Text) (item : Trivia) : Prop :=
  ∃ piece, Text.slice? item.span.start item.span.stop text = some piece ∧
    item.kind.fits piece = true

/-- One piece of trivia ends where the other begins or before. -/
def Before (first second : Trivia) : Prop :=
  first.span.stop ≤ second.span.start

theorem fault?_eq_none_iff
    {text : Text}
    {previousStop : Nat}
    {item : Trivia} :
    fault? text previousStop item = none ↔
      previousStop ≤ item.span.start ∧ item.Holds text := by
  unfold fault? Holds
  by_cases reversed : item.span.stop < item.span.start
  · rw [if_pos reversed]
    have noSlice : Text.slice? item.span.start item.span.stop text = none := by
      rw [Text.slice?, if_neg (by omega)]
    simp [noSlice]
  · rw [if_neg reversed]
    cases sliced : Text.slice? item.span.start item.span.stop text with
    | none => simp
    | some piece =>
        by_cases overlapping : item.span.start < previousStop
        · simp [overlapping, Nat.not_le_of_lt overlapping]
        · by_cases fitting : item.kind.fits piece = true
          · simp [overlapping, fitting, Nat.le_of_not_lt overlapping]
          · simp [overlapping, fitting]

theorem Holds.start_le_stop {text : Text} {item : Trivia} (holds : item.Holds text) :
    item.span.start ≤ item.span.stop := by
  obtain ⟨piece, sliced, _⟩ := holds
  obtain ⟨_, _, _, _, size⟩ := Text.slice?_eq_some_iff.1 sliced
  omega

/-- A list of trivia has no fault exactly when every span holds text of its
kind and none begins before another of them, or what comes before the list,
ends. -/
theorem firstFaultFrom_eq_none_iff
    {text : Text}
    {previousStop index : Nat}
    {trivia : List Trivia} :
    firstFaultFrom text previousStop index trivia = none ↔
      (∀ item ∈ trivia, previousStop ≤ item.span.start ∧ item.Holds text) ∧
        trivia.Pairwise Before := by
  induction trivia generalizing previousStop index with
  | nil => simp [firstFaultFrom]
  | cons item rest inductionHypothesis =>
      rw [firstFaultFrom]
      cases faultEq : fault? text previousStop item with
      | some fault =>
          have faulty : ¬ (previousStop ≤ item.span.start ∧ item.Holds text) := by
            rw [← fault?_eq_none_iff, faultEq]
            simp
          simp [faulty]
      | none =>
          obtain ⟨behind, holds⟩ := fault?_eq_none_iff.1 faultEq
          have ordered := holds.start_le_stop
          simp only [inductionHypothesis, List.mem_cons, forall_eq_or_imp, List.pairwise_cons]
          constructor
          · rintro ⟨restHolds, restOrdered⟩
            refine ⟨⟨⟨behind, holds⟩, fun later member => ⟨?_, (restHolds later member).2⟩⟩,
              fun later member => (restHolds later member).1, restOrdered⟩
            have stopLe := (restHolds later member).1
            omega
          · rintro ⟨⟨_, restHolds⟩, itemBefore, restOrdered⟩
            exact
              ⟨fun later member => ⟨itemBefore later member, (restHolds later member).2⟩,
                restOrdered⟩

theorem firstFault?_eq_none_iff {text : Text} {trivia : List Trivia} :
    firstFault? text trivia = none ↔
      (∀ item ∈ trivia, item.Holds text) ∧ trivia.Pairwise Before := by
  simp [firstFault?, firstFaultFrom_eq_none_iff]

end Trivia

namespace TriviaKind

private theorem ne_nil_of_fits
    {kind : TriviaKind}
    {piece : Text}
    (fitting : kind.fits piece = true) :
    piece ≠ [] := by
  rintro rfl
  revert fitting
  cases kind <;> decide

end TriviaKind

namespace Trivia

theorem Holds.start_lt_stop {text : Text} {item : Trivia} (holds : item.Holds text) :
    item.span.start < item.span.stop := by
  obtain ⟨piece, sliced, fitting⟩ := holds
  obtain ⟨_, _, _, _, size⟩ := Text.slice?_eq_some_iff.1 sliced
  cases piece with
  | nil => exact absurd rfl (TriviaKind.ne_nil_of_fits fitting)
  | cons c rest =>
      have positive := Char.utf8Size_pos c
      rw [Text.byteSize_cons] at size
      omega

theorem Holds.stop_le {text : Text} {item : Trivia} (holds : item.Holds text) :
    item.span.stop ≤ Text.byteSize text := by
  obtain ⟨piece, sliced, _⟩ := holds
  obtain ⟨_, _, rfl, _, size⟩ := Text.slice?_eq_some_iff.1 sliced
  simp only [Text.byteSize_append]
  omega

end Trivia

end MacroRegions

import MacroRegions.Proofs.Nesting.Account
import MacroRegions.Proofs.Nesting.Relabelling

/-!
Weighing the markers of blocks.

When markers have weights, the blocks weigh as much as the markers that they have.
Items add at most their weights to the blocks before them, and just their weights if
each marker of some weight is part of a block.
-/

namespace MacroRegions

variable {weight : Marker → Nat}

def markerWeight (weight : Marker → Nat) (marker : Option Marker) : Nat :=
  marker.elim 0 weight

def endsWeight (weight : Marker → Nat) : List (Option Marker × Option Marker) → Nat
  | [] => 0
  | pair :: rest =>
    markerWeight weight pair.1 + markerWeight weight pair.2 + endsWeight weight rest

def PairingItem.itemsWeight (weight : Marker → Nat) : List PairingItem → Nat
  | [] => 0
  | item :: rest => markerWeight weight item.marker? + itemsWeight weight rest

private theorem endsWeight_append (left right : List (Option Marker × Option Marker)) :
    endsWeight weight (left ++ right) = endsWeight weight left + endsWeight weight right := by
  induction left with
  | nil => simp [endsWeight]
  | cons pair rest inductionHypothesis =>
      simp only [List.cons_append, endsWeight, inductionHypothesis]
      omega

theorem endsWeight_map
    (f : Marker → Marker)
    (ends : List (Option Marker × Option Marker)) :
    endsWeight weight (ends.map fun pair => (pair.1.map f, pair.2.map f)) =
      endsWeight (fun found => weight (f found)) ends := by
  have mapped :
      ∀ marker : Option Marker,
        markerWeight weight (marker.map f) =
          markerWeight (fun found => weight (f found)) marker := by
    intro marker
    cases marker <;> rfl
  induction ends with
  | nil => rfl
  | cons pair rest inductionHypothesis =>
      simp only [List.map_cons, endsWeight, mapped, inductionHypothesis]

namespace BlockForest

theorem ends_eraseErrors (forest : BlockForest) :
    BlockForest.ends forest.eraseErrors = BlockForest.ends forest := by
  simp only [BlockForest.ends, eraseErrors, Forest.toList_map, List.map_map]
  rfl

theorem ends_relabel (change : Relabelling) (forest : BlockForest) :
    BlockForest.ends (forest.relabel change) =
      (BlockForest.ends forest).map fun pair =>
        (pair.1.map change.marker, pair.2.map change.marker) := by
  simp only [BlockForest.ends, relabel, Forest.toList_map, List.map_map]
  rfl

end BlockForest

namespace Nesting

private theorem ends_after_strict (strict : Bool) (items : List PairingItem) :
    (after strict items).ends = (after false items).ends := by
  have same := eraseErrors_finish_congr (eraseErrors_after strict items)
  rw [← ends_finish, ← BlockForest.ends_eraseErrors, same, BlockForest.ends_eraseErrors,
    ends_finish]

private theorem ends_after_map (change : Relabelling) (strict : Bool) (items : List PairingItem) :
    (after strict (items.map (PairingItem.mapMarker change.marker))).ends =
      (after strict items).ends.map fun pair =>
        (pair.1.map change.marker, pair.2.map change.marker) := by
  have finishEq := finish_relabel change (after false items)
  rw [← (run_relabel change.keepsReports_lenient items).1] at finishEq
  rw [ends_after_strict, ends_after_strict strict, ← ends_finish, ← ends_finish, finishEq,
    BlockForest.ends_relabel]

/-- Items that come to the same with changed markers make blocks that do. -/
theorem endsWeight_after_congr
    {items items' : List PairingItem}
    (weight : Marker → Nat)
    (change change' : Relabelling)
    (strict : Bool)
    (same :
      items'.map (PairingItem.mapMarker change'.marker) =
        items.map (PairingItem.mapMarker change.marker)) :
    endsWeight (fun found => weight (change'.marker found)) (after strict items').ends =
      endsWeight (fun found => weight (change.marker found)) (after strict items).ends := by
  rw [← endsWeight_map change'.marker, ← endsWeight_map change.marker, ← ends_after_map,
    ← ends_after_map, same]

variable {strict : Bool}

/-- An item adds nothing to the blocks, or its weight. -/
theorem endsWeight_step_cases
    (weight : Marker → Nat)
    (strict : Bool)
    (nesting : Nesting)
    (item : PairingItem) :
    endsWeight weight (nesting.step strict item).1.ends =
        endsWeight weight nesting.ends + markerWeight weight item.marker? ∨
      endsWeight weight (nesting.step strict item).1.ends = endsWeight weight nesting.ends ∧
        (∀ found ∈ item.marker?, found.keyword = .macroEnd) ∧
        ∀ stop start outer, item = .marker stop → stop.keyword = .macroEnd →
          nesting.openersOf stop.family ≠ some start :: outer := by
  rcases ends_step_cases strict nesting item with
    ⟨same, isEnd, nothing⟩ | ⟨start, rfl, _, added⟩ |
      ⟨stop, start, outer, before, behind, rfl, _, _, listed, filled⟩
  · exact Or.inr ⟨by rw [same], isEnd, nothing⟩
  · left
    rw [added, endsWeight_append]
    simp [endsWeight, markerWeight, PairingItem.marker?]
  · left
    rw [listed, filled]
    simp only [endsWeight_append, endsWeight, markerWeight, Option.elim, PairingItem.marker?]
    omega

private theorem endsWeight_run_le (nesting : Nesting) (items : List PairingItem) :
    endsWeight weight (nesting.run strict items).1.ends ≤
      endsWeight weight nesting.ends + PairingItem.itemsWeight weight items := by
  induction items generalizing nesting with
  | nil => exact Nat.le_add_right _ _
  | cons item rest inductionHypothesis =>
      have later := inductionHypothesis (nesting.step strict item).1
      rw [PairingItem.itemsWeight]
      simp only [run]
      rcases endsWeight_step_cases weight strict nesting item with
        added | ⟨same, _⟩
      · omega
      · omega

/-- Items add at most their weight to the blocks before them. -/
theorem endsWeight_after_append_le
    (weight : Marker → Nat)
    (strict : Bool)
    (front back : List PairingItem) :
    endsWeight weight (after strict (front ++ back)).ends ≤
      endsWeight weight (after strict front).ends + PairingItem.itemsWeight weight back := by
  rw [after, run_append]
  exact endsWeight_run_le _ back

/-- Items add their weight to the blocks before them if each marker that has
weight opens a block or closes one. -/
theorem le_endsWeight_after_append
    {items : List PairingItem}
    (weight : Marker → Nat)
    (inOrder : PairingItem.InOrder items)
    (front back : List PairingItem)
    (split : items = front ++ back)
    (used : ∀ found ∈ PairingItem.markers back,
      weight found ≠ 0 →
        found.isStart = true ∨ ∃ start outer, Meets strict items found (some start :: outer)) :
    endsWeight weight (after strict front).ends + PairingItem.itemsWeight weight back ≤
      endsWeight weight (after strict items).ends := by
  induction back generalizing front with
  | nil =>
      rw [split, List.append_nil]
      exact Nat.le_refl _
  | cons item rest inductionHypothesis =>
      have split' : items = (front ++ [item]) ++ rest := by
        rw [split, List.append_assoc, List.singleton_append]
      have later :=
        inductionHypothesis (front ++ [item]) split' fun found member =>
          used found (by
            rw [PairingItem.markers] at member ⊢
            rw [List.filterMap_cons]
            split
            · exact member
            · exact List.mem_cons_of_mem _ member)
      rw [after_concat] at later
      rw [PairingItem.itemsWeight]
      rcases endsWeight_step_cases weight strict (after strict front) item
        with added | ⟨same, isEnd, nothing⟩
      · omega
      · cases item with
        | plainRegion =>
            simp only [PairingItem.marker?, markerWeight, Option.elim]
            omega
        | marker found =>
            by_cases weightless : weight found = 0
            · simp only [PairingItem.marker?, markerWeight, Option.elim]
              omega
            · have keyword := isEnd found rfl
              rcases used found (by simp [PairingItem.markers, PairingItem.marker?]) weightless
                with isStart | ⟨start, outer, taken, others, takenSplit, _, openersEq⟩
              · simp [Marker.isStart, keyword] at isStart
              · obtain rfl := inOrder.front_unique takenSplit split
                exact absurd openersEq (nothing found start outer rfl keyword)

end Nesting

end MacroRegions

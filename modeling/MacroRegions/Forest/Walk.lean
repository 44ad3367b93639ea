import MacroRegions.Forest.Basic

/-!
Walking through a forest one node at a time.

A walk keeps the trees that it has not entered yet, the next one first.
Entering a tree puts its children before the others, so a walk meets the
values of a forest in pre-order.
-/

namespace MacroRegions

/-- What a walk through a forest has still to enter. -/
structure Walk (α : Type) where
  pending : List (α × Forest α)

namespace Walk

variable {α : Type}

def ofForest (forest : Forest α) : Walk α :=
  ⟨forest.trees⟩

def next? (walk : Walk α) : Option (α × Walk α) :=
  match walk.pending with
  | [] => none
  | (value, children) :: rest => some (value, ⟨children.trees ++ rest⟩)

def countNodes : List (α × Forest α) → Nat
  | [] => 0
  | (_, children) :: rest => children.size + 1 + countNodes rest

/-- Number of nodes that are still to come. -/
def remaining (walk : Walk α) : Nat :=
  countNodes walk.pending

private theorem countNodes_append (front back : List (α × Forest α)) :
    countNodes (front ++ back) = countNodes front + countNodes back := by
  induction front with
  | nil => simp [countNodes]
  | cons tree rest inductionHypothesis =>
      simp only [List.cons_append, countNodes, inductionHypothesis]
      omega

private theorem countNodes_trees (forest : Forest α) : countNodes forest.trees = forest.size := by
  induction forest with
  | nil => rfl
  | node value children siblings _ inductionHypothesis =>
      simp only [Forest.trees, countNodes, inductionHypothesis, Forest.size]
      omega

private theorem remaining_of_next?
    {walk rest : Walk α}
    {value : α}
    (entered : walk.next? = some (value, rest)) :
    walk.remaining = rest.remaining + 1 := by
  obtain ⟨pending⟩ := walk
  cases pending with
  | nil => simp [next?] at entered
  | cons tree others =>
      obtain ⟨root, children⟩ := tree
      obtain ⟨rfl, rfl⟩ : root = value ∧ ⟨children.trees ++ others⟩ = rest := by
        simpa [next?] using entered
      simp only [remaining, countNodes, countNodes_append, countNodes_trees]
      omega

def toList (walk : Walk α) : List α :=
  match _ : walk.next? with
  | none => []
  | some (value, rest) => value :: rest.toList
termination_by walk.remaining
decreasing_by
  have shorter := remaining_of_next? ‹walk.next? = some (value, rest)›
  omega

/-- What a walk still meets are the listings of the trees that it has not
entered, the next one first. -/
theorem toList_eq_flatMap (walk : Walk α) :
    walk.toList = walk.pending.flatMap fun tree => tree.1 :: tree.2.toList := by
  fun_induction toList walk with
  | case1 walk ended =>
      obtain ⟨pending⟩ := walk
      cases pending with
      | nil => rfl
      | cons tree others => simp [next?] at ended
  | case2 walk value rest entered inductionHypothesis =>
      obtain ⟨pending⟩ := walk
      cases pending with
      | nil => simp [next?] at entered
      | cons tree others =>
          obtain ⟨rfl, rfl⟩ : tree.1 = value ∧ ⟨tree.2.trees ++ others⟩ = rest := by
            simpa [next?] using entered
          rw [inductionHypothesis]
          simp [Forest.flatMap_trees]

/-- A walk through a forest meets its values in pre-order. -/
@[simp]
theorem toList_ofForest (forest : Forest α) :
    (ofForest forest).toList = forest.toList := by
  rw [toList_eq_flatMap, ofForest, Forest.flatMap_trees]

end Walk

end MacroRegions

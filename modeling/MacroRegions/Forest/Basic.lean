/-!
Ordered forests.

A forest is a row of trees: the first tree's root, the forest of its
children, and the trees beside it. Everything about a forest is one
structural recursion.
-/

namespace MacroRegions

/-- A row of ordered trees. -/
inductive Forest (α : Type) where
  | nil
  | node (value : α) (children siblings : Forest α)
deriving DecidableEq, Repr, Inhabited

namespace Forest

variable {α β : Type}

def single (value : α) (children : Forest α) : Forest α :=
  node value children nil

def append : Forest α → Forest α → Forest α
  | nil, right => right
  | node value children siblings, right => node value children (siblings.append right)

instance : Append (Forest α) := ⟨append⟩

/-- The trees of a row, each as its root and its children. -/
def trees : Forest α → List (α × Forest α)
  | nil => []
  | node value children siblings => (value, children) :: siblings.trees

def length : Forest α → Nat
  | nil => 0
  | node _ _ siblings => siblings.length + 1

def size : Forest α → Nat
  | nil => 0
  | node _ children siblings => children.size + siblings.size + 1

def map (f : α → β) : Forest α → Forest β
  | nil => nil
  | node value children siblings => node (f value) (children.map f) (siblings.map f)

/-- The values in pre-order: parents before their children, siblings from
first to last. -/
def toList : Forest α → List α
  | nil => []
  | node value children siblings => value :: (children.toList ++ siblings.toList)

/-- The nodes in pre-order, each with its depth and its children. The depth of
a root is `depth`. -/
def outline (depth : Nat) : Forest α → List (Nat × α × Forest α)
  | nil => []
  | node value children siblings =>
    (depth, value, children) :: (children.outline (depth + 1) ++ siblings.outline depth)

/-- The values at the same places of two forests, in pre-order, as far as both
reach. -/
def zip : Forest α → Forest β → List (α × β)
  | node value children siblings, node value' children' siblings' =>
    (value, value') :: (children.zip children' ++ siblings.zip siblings')
  | _, _ => []

/-! ## Single nodes

A node is named by a test that it passes; of several such nodes the first in
pre-order is meant.
-/

/-- Whether one of the roots passes. -/
def hasRoot (test : α → Bool) : Forest α → Bool
  | nil => false
  | node value _ siblings => test value || siblings.hasRoot test

def contains (test : α → Bool) : Forest α → Bool
  | nil => false
  | node value children siblings =>
    test value || children.contains test || siblings.contains test

/-- The tree of the node. -/
def find? (test : α → Bool) : Forest α → Option (α × Forest α)
  | nil => none
  | node value children siblings =>
    if test value then
      some (value, children)
    else
      (children.find? test).or (siblings.find? test)

/-- The parent of the node, unless it is a root. -/
def parent? (test : α → Bool) : Forest α → Option α
  | nil => none
  | node value children siblings =>
    if children.hasRoot test then
      some value
    else
      (children.parent? test).or (siblings.parent? test)

def modify (test : α → Bool) (f : α → α) : Forest α → Forest α :=
  map fun value => if test value then f value else value

/-- The forest with other trees in the place of those whose roots pass. -/
def replaceTrees (test : α → Bool) (f : α → Forest α → α × Forest α) : Forest α → Forest α
  | nil => nil
  | node value children siblings =>
    if test value then
      let (newValue, newChildren) := f value children
      node newValue newChildren (siblings.replaceTrees test f)
    else
      node value (children.replaceTrees test f) (siblings.replaceTrees test f)

def eraseRoot (test : α → Bool) : Forest α → Forest α
  | nil => nil
  | node value children siblings =>
    if test value then siblings else node value children (siblings.eraseRoot test)

/-! ## Laws -/

@[simp]
theorem nil_append (right : Forest α) : nil ++ right = right := rfl

@[simp]
theorem node_append (value : α) (children siblings right : Forest α) :
    node value children siblings ++ right = node value children (siblings ++ right) := rfl

@[simp]
theorem append_nil (forest : Forest α) : forest ++ nil = forest := by
  induction forest with
  | nil => rfl
  | node value children siblings _ inductionHypothesis =>
      rw [node_append, inductionHypothesis]

theorem append_assoc (first second third : Forest α) :
    first ++ second ++ third = first ++ (second ++ third) := by
  induction first with
  | nil => rfl
  | node value children siblings _ inductionHypothesis =>
      simp only [node_append, inductionHypothesis]

@[simp]
theorem toList_append (left right : Forest α) :
    (left ++ right).toList = left.toList ++ right.toList := by
  induction left with
  | nil => rfl
  | node value children siblings _ inductionHypothesis =>
      simp [toList, inductionHypothesis]

theorem flatMap_trees (forest : Forest α) :
    (forest.trees.flatMap fun tree => tree.1 :: tree.2.toList) = forest.toList := by
  induction forest with
  | nil => rfl
  | node value children siblings _ inductionHypothesis =>
      simp [trees, toList, inductionHypothesis]

theorem map_append (f : α → β) (left right : Forest α) :
    (left ++ right).map f = left.map f ++ right.map f := by
  induction left with
  | nil => rfl
  | node value children siblings _ inductionHypothesis =>
      simp only [node_append, map, inductionHypothesis]

theorem map_map {γ : Type} (g : β → γ) (f : α → β) (forest : Forest α) :
    (forest.map f).map g = forest.map fun value => g (f value) := by
  induction forest with
  | nil => rfl
  | node value children siblings childrenHypothesis siblingsHypothesis =>
      simp only [map, childrenHypothesis, siblingsHypothesis]

theorem map_id (forest : Forest α) : (forest.map fun value => value) = forest := by
  induction forest with
  | nil => rfl
  | node value children siblings childrenHypothesis siblingsHypothesis =>
      rw [map, childrenHypothesis, siblingsHypothesis]

theorem map_congr
    {f g : α → β}
    {forest : Forest α}
    (same : ∀ value ∈ forest.toList, f value = g value) :
    forest.map f = forest.map g := by
  induction forest with
  | nil => rfl
  | node value children siblings childrenHypothesis siblingsHypothesis =>
      simp only [toList, List.mem_cons, List.mem_append] at same
      have first := same value (Or.inl rfl)
      have within := childrenHypothesis fun v member => same v (Or.inr (Or.inl member))
      have beside := siblingsHypothesis fun v member => same v (Or.inr (Or.inr member))
      rw [map, map, first, within, beside]

@[simp]
theorem toList_map (f : α → β) (forest : Forest α) :
    (forest.map f).toList = forest.toList.map f := by
  induction forest with
  | nil => rfl
  | node value children siblings childrenHypothesis siblingsHypothesis =>
      simp [map, toList, childrenHypothesis, siblingsHypothesis]

@[simp]
theorem length_toList (forest : Forest α) : forest.toList.length = forest.size := by
  induction forest with
  | nil => rfl
  | node value children siblings childrenHypothesis siblingsHypothesis =>
      simp [toList, size, childrenHypothesis, siblingsHypothesis]

end Forest

end MacroRegions

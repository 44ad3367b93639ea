import MacroRegions.Forest.Walk

/-!
Walks meet every node once.

A node is named here by its place: which tree of the row to go to, then which of its
children, and so on down. In the lexicographic order of places a node comes before
everything below it, and that before the trees beside it. A walk enters one node for
each place, in this order, and what it has still to enter can be read off its stack.
-/

namespace MacroRegions

namespace Forest

variable {α : Type}

/-- The nodes in pre-order, each with its children. -/
def nodes : Forest α → List (α × Forest α)
  | nil => []
  | node value children siblings => (value, children) :: (children.nodes ++ siblings.nodes)

def nodeAt? (forest : Forest α) : (place : List Nat) → Option (α × Forest α)
  | [] => none
  | [index] => forest.trees[index]?
  | index :: next :: below =>
    forest.trees[index]?.bind fun tree => tree.2.nodeAt? (next :: below)

/-- The same place behind one more tree. -/
def behindTree : List Nat → List Nat
  | [] => []
  | index :: below => (index + 1) :: below

def places : Forest α → List (List Nat)
  | nil => []
  | node _ children siblings =>
    [0] :: (children.places.map (0 :: ·) ++ siblings.places.map behindTree)

private theorem flatMap_trees_nodes (forest : Forest α) :
    (forest.trees.flatMap fun tree => tree :: tree.2.nodes) = forest.nodes := by
  induction forest with
  | nil => rfl
  | node value children siblings _ inductionHypothesis =>
      simp [trees, nodes, inductionHypothesis]

@[simp]
theorem map_fst_nodes (forest : Forest α) : forest.nodes.map Prod.fst = forest.toList := by
  induction forest with
  | nil => rfl
  | node value children siblings childrenHypothesis siblingsHypothesis =>
      simp [nodes, toList, childrenHypothesis, siblingsHypothesis]

@[simp]
theorem nodeAt?_nil (place : List Nat) : (nil : Forest α).nodeAt? place = none := by
  match place with
  | [] => rfl
  | [_] => rfl
  | _ :: _ :: _ => rfl

private theorem nodeAt?_behindTree (value : α) (children siblings : Forest α) (place : List Nat) :
    (node value children siblings).nodeAt? (behindTree place) = siblings.nodeAt? place := by
  match place with
  | [] => rfl
  | [_] => rfl
  | _ :: _ :: _ => rfl

private theorem nodeAt?_zero_cons
    (value : α)
    {children siblings : Forest α}
    {place : List Nat}
    (nonempty : place ≠ []) :
    (node value children siblings).nodeAt? (0 :: place) = children.nodeAt? place := by
  obtain ⟨index, below, rfl⟩ := List.exists_cons_of_ne_nil nonempty
  rfl

private theorem ne_nil_of_mem_places
    {forest : Forest α}
    {place : List Nat}
    (member : place ∈ forest.places) :
    place ≠ [] := by
  induction forest generalizing place with
  | nil => simp [places] at member
  | node value children siblings _ siblingsHypothesis =>
      simp only [places, List.mem_cons, List.mem_append, List.mem_map] at member
      rcases member with rfl | ⟨below, _, rfl⟩ | ⟨beside, besideMember, rfl⟩
      · exact List.cons_ne_nil _ _
      · exact List.cons_ne_nil _ _
      · obtain ⟨index, below, rfl⟩ :=
          List.exists_cons_of_ne_nil (siblingsHypothesis besideMember)
        exact List.cons_ne_nil _ _

/-- There is a node at every place of the list and at no other. -/
theorem mem_places_iff {forest : Forest α} {place : List Nat} :
    place ∈ forest.places ↔ (forest.nodeAt? place).isSome = true := by
  induction forest generalizing place with
  | nil => simp [places]
  | node value children siblings childrenHypothesis siblingsHypothesis =>
      simp only [places, List.mem_cons, List.mem_append, List.mem_map]
      constructor
      · rintro (rfl | ⟨below, member, rfl⟩ | ⟨beside, member, rfl⟩)
        · rfl
        · rw [nodeAt?_zero_cons value (ne_nil_of_mem_places member)]
          exact childrenHypothesis.1 member
        · rw [nodeAt?_behindTree]
          exact siblingsHypothesis.1 member
      · intro isPlace
        match place with
        | [] => simp [nodeAt?] at isPlace
        | [0] => exact Or.inl rfl
        | 0 :: index :: below =>
            exact Or.inr (Or.inl ⟨index :: below, childrenHypothesis.2 isPlace, rfl⟩)
        | (index + 1) :: below =>
            rw [show (index + 1) :: below = behindTree (index :: below) from rfl,
              nodeAt?_behindTree] at isPlace
            exact Or.inr (Or.inr ⟨index :: below, siblingsHypothesis.2 isPlace, rfl⟩)

private theorem map_nodeAt?_places (forest : Forest α) :
    forest.places.map forest.nodeAt? = forest.nodes.map some := by
  induction forest with
  | nil => rfl
  | node value children siblings childrenHypothesis siblingsHypothesis =>
      have within :
          children.places.map (fun place => (node value children siblings).nodeAt? (0 :: place)) =
            children.places.map children.nodeAt? :=
        List.map_congr_left fun place member =>
          nodeAt?_zero_cons value (ne_nil_of_mem_places member)
      have beside :
          (siblings.places.map fun place =>
              (node value children siblings).nodeAt? (behindTree place)) =
            siblings.places.map siblings.nodeAt? :=
        List.map_congr_left fun place _ => nodeAt?_behindTree value children siblings place
      simp only [places, nodes, List.map_cons, List.map_append, List.map_map, Function.comp_def,
        within, beside, childrenHypothesis, siblingsHypothesis]
      rfl

private theorem behindTree_lt
    {first second : List Nat}
    (nonempty : first ≠ [])
    (ordered : first < second) :
    behindTree first < behindTree second := by
  obtain ⟨index, below, rfl⟩ := List.exists_cons_of_ne_nil nonempty
  cases second with
  | nil => exact absurd ordered (List.not_lt_nil _)
  | cons index' below' =>
      rw [behindTree, behindTree, List.cons_lt_cons_iff]
      rcases List.cons_lt_cons_iff.1 ordered with smaller | ⟨rfl, belowOrdered⟩
      · exact Or.inl (Nat.succ_lt_succ smaller)
      · exact Or.inr ⟨rfl, belowOrdered⟩

private theorem zero_cons_lt_behindTree
    {place : List Nat}
    (below : List Nat)
    (nonempty : place ≠ []) :
    0 :: below < behindTree place := by
  obtain ⟨index, rest, rfl⟩ := List.exists_cons_of_ne_nil nonempty
  exact List.cons_lt_cons_iff.2 (Or.inl (Nat.succ_pos index))

private theorem zero_cons_lt_zero_cons {first second : List Nat} (ordered : first < second) :
    0 :: first < 0 :: second :=
  List.cons_lt_cons_iff.2 (Or.inr ⟨rfl, ordered⟩)

/-- Pre-order is the lexicographic order of the places. -/
theorem pairwise_lt_places (forest : Forest α) : forest.places.Pairwise (· < ·) := by
  induction forest with
  | nil => exact List.Pairwise.nil
  | node value children siblings childrenHypothesis siblingsHypothesis =>
      rw [places, List.pairwise_cons, List.pairwise_append, List.pairwise_map, List.pairwise_map]
      refine ⟨?_, ?_, ?_, ?_⟩
      · intro place member
        simp only [List.mem_append, List.mem_map] at member
        rcases member with ⟨below, belowMember, rfl⟩ | ⟨beside, besideMember, rfl⟩
        · obtain ⟨index, rest, rfl⟩ :=
            List.exists_cons_of_ne_nil (ne_nil_of_mem_places belowMember)
          exact zero_cons_lt_zero_cons (List.nil_lt_cons _ _)
        · exact zero_cons_lt_behindTree [] (ne_nil_of_mem_places besideMember)
      · exact childrenHypothesis.imp zero_cons_lt_zero_cons
      · exact siblingsHypothesis.imp_of_mem fun member _ ordered =>
          behindTree_lt (ne_nil_of_mem_places member) ordered
      · intro within withinMember beside besideMember
        obtain ⟨below, _, rfl⟩ := List.mem_map.1 withinMember
        obtain ⟨place, placeMember, rfl⟩ := List.mem_map.1 besideMember
        exact zero_cons_lt_behindTree below (ne_nil_of_mem_places placeMember)

end Forest

namespace Walk

variable {α : Type}

/-! ## Nodes that a walk enters -/

/-- The nodes that a walk enters until it comes to its end. The next one is the tree on
top of its stack. -/
inductive Enters : Walk α → List (α × Forest α) → Prop where
  | done {walk : Walk α} (ended : walk.next? = none) : Enters walk []
  | more {walk rest : Walk α} {tree : α × Forest α} {others : List (α × Forest α)}
      (top : walk.pending.head? = some tree)
      (next : walk.next? = some (tree.1, rest))
      (enters : Enters rest others) :
      Enters walk (tree :: others)

/-- The walk after some steps. At its end it makes no more of them. -/
def skip (walk : Walk α) : Nat → Walk α
  | 0 => walk
  | count + 1 =>
    match walk.next? with
    | none => walk
    | some (_, rest) => rest.skip count

def upcoming (walk : Walk α) : List (α × Forest α) :=
  walk.pending.flatMap fun tree => tree :: tree.2.nodes

private theorem upcoming_of_ended {walk : Walk α} (ended : walk.next? = none) :
    walk.upcoming = [] := by
  obtain ⟨pending⟩ := walk
  cases pending with
  | nil => rfl
  | cons tree others => simp [next?] at ended

/-- A step enters the first of the nodes that are still to come. -/
theorem upcoming_of_next?
    {walk rest : Walk α}
    {value : α}
    (next : walk.next? = some (value, rest)) :
    ∃ children,
      walk.pending.head? = some (value, children) ∧
        walk.upcoming = (value, children) :: rest.upcoming := by
  obtain ⟨pending⟩ := walk
  cases pending with
  | nil => simp [next?] at next
  | cons tree others =>
      obtain ⟨root, children⟩ := tree
      obtain ⟨rfl, rfl⟩ : root = value ∧ ⟨children.trees ++ others⟩ = rest := by
        simpa [next?] using next
      exact ⟨children, rfl, by simp [upcoming, Forest.flatMap_trees_nodes]⟩

/-- Every walk comes to its end, by what is on its stack. -/
theorem enters_upcoming (walk : Walk α) : walk.Enters walk.upcoming := by
  induction walk using toList.induct with
  | case1 walk ended =>
      rw [upcoming_of_ended ended]
      exact .done ended
  | case2 walk value rest next inductionHypothesis =>
      obtain ⟨children, top, upcomingEq⟩ := upcoming_of_next? next
      rw [upcomingEq]
      exact .more top next inductionHypothesis

theorem enters_iff {walk : Walk α} {entered : List (α × Forest α)} :
    walk.Enters entered ↔ entered = walk.upcoming := by
  constructor
  · intro enters
    induction enters with
    | done ended => exact (upcoming_of_ended ended).symm
    | more top next _ inductionHypothesis =>
        obtain ⟨children, top', upcomingEq⟩ := upcoming_of_next? next
        have treeEq := Option.some.inj (top.symm.trans top')
        rw [upcomingEq, ← treeEq, inductionHypothesis]
  · rintro rfl
    exact enters_upcoming walk

private theorem upcoming_skip (walk : Walk α) (count : Nat) :
    (walk.skip count).upcoming = walk.upcoming.drop count := by
  induction count generalizing walk with
  | zero => rfl
  | succ count inductionHypothesis =>
      rw [skip]
      cases next : walk.next? with
      | none => rw [upcoming_of_ended next, List.drop_nil]
      | some step =>
          obtain ⟨children, _, upcomingEq⟩ := upcoming_of_next? next
          rw [upcomingEq, List.drop_succ_cons]
          exact inductionHypothesis step.2

@[simp]
theorem upcoming_ofForest (forest : Forest α) : (ofForest forest).upcoming = forest.nodes :=
  Forest.flatMap_trees_nodes forest

private theorem toList_eq_map_upcoming (walk : Walk α) :
    walk.toList = walk.upcoming.map Prod.fst := by
  rw [toList_eq_flatMap, upcoming, List.map_flatMap]
  simp only [List.map_cons, Forest.map_fst_nodes]

/-- A walk through a forest comes to its end, having entered the nodes of the recursive
listing and no others: at every place the node that stands there, in the order of the
places. A walk that begins at one node enters it and what is below it. At any moment a
walk has still to enter the listings of the trees on its stack, the top one first; what
it meets are the values of the nodes that it enters. -/
theorem enters_every_place_once :
    (∀ (forest : Forest α) entered,
        (ofForest forest).Enters entered ↔ entered = forest.nodes) ∧
      (∀ forest : Forest α,
        ∃ places : List (List Nat),
          places.Pairwise (· < ·) ∧
            (∀ place, place ∈ places ↔ (forest.nodeAt? place).isSome = true) ∧
            places.map forest.nodeAt? = forest.nodes.map some) ∧
      (∀ (value : α) children entered,
        Enters ⟨[(value, children)]⟩ entered ↔ entered = (value, children) :: children.nodes) ∧
      (∀ (forest : Forest α) count,
        ((ofForest forest).skip count).Enters (forest.nodes.drop count)) ∧
      (∀ (walk : Walk α) entered,
        walk.Enters entered ↔ entered = walk.pending.flatMap fun tree => tree :: tree.2.nodes) ∧
      ∀ walk : Walk α,
        walk.toList =
          (walk.pending.flatMap fun tree => tree :: tree.2.nodes).map Prod.fst := by
  refine ⟨?_, ?_, ?_, ?_, fun walk entered => enters_iff, toList_eq_map_upcoming⟩
  · intro forest entered
    rw [enters_iff, upcoming_ofForest]
  · intro forest
    exact
      ⟨forest.places, forest.pairwise_lt_places, fun _ => Forest.mem_places_iff,
        forest.map_nodeAt?_places⟩
  · intro value children entered
    rw [enters_iff, upcoming, List.flatMap_singleton]
  · intro forest count
    rw [enters_iff, upcoming_skip, upcoming_ofForest]

/-- Equal values at different places are different nodes. -/
example :
    (Forest.node 'a' (.single 'b' .nil) (.single 'a' .nil)).places = [[0], [0, 0], [1]] := rfl

end Walk

end MacroRegions

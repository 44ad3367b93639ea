import Mathlib.Data.List.Nodup
import Mathlib.Data.List.Perm.Basic
import MacroRegions.Builder

/-!
The ids in a forest of builders.

A builder is found by its id. The lemmas say what looking, changing, adding and
taking away do to the ids of a forest and to those of its roots.
-/

namespace MacroRegions

namespace Forest

def ids (forest : Forest Builder) : List Nat :=
  forest.toList.map Builder.id

def rootIds (forest : Forest Builder) : List Nat :=
  forest.trees.map (·.1.id)

variable {builder : Builder} {children siblings left right forest : Forest Builder} {id : Nat}

@[simp]
theorem ids_nil : ids nil = [] := rfl

@[simp]
theorem ids_node :
    ids (node builder children siblings) = builder.id :: (ids children ++ ids siblings) := by
  simp [ids, toList]

@[simp]
theorem ids_append : ids (left ++ right) = ids left ++ ids right := by
  simp [ids]

@[simp]
theorem ids_single : ids (single builder children) = builder.id :: ids children := by
  simp [single]

@[simp]
theorem trees_append {α : Type} (left right : Forest α) :
    (left ++ right).trees = left.trees ++ right.trees := by
  induction left with
  | nil => rfl
  | node value children siblings _ inductionHypothesis =>
      simp [trees, inductionHypothesis]

@[simp]
theorem rootIds_nil : rootIds nil = [] := rfl

@[simp]
theorem rootIds_node :
    rootIds (node builder children siblings) = builder.id :: rootIds siblings := rfl

@[simp]
theorem rootIds_append : rootIds (left ++ right) = rootIds left ++ rootIds right := by
  simp [rootIds]

@[simp]
theorem rootIds_single : rootIds (single builder children) = [builder.id] := rfl

theorem rootIds_sublist_ids (forest : Forest Builder) : forest.rootIds.Sublist forest.ids := by
  induction forest with
  | nil => exact List.Sublist.slnil
  | node builder children siblings _ inductionHypothesis =>
      rw [rootIds_node, ids_node]
      exact (inductionHypothesis.trans (List.sublist_append_right _ _)).cons_cons _

end Forest

namespace BuilderPool

open Forest

variable {forest : Forest Builder} {id : Nat}

theorem hasRoot_iff : forest.hasRoot (hasId id) = true ↔ id ∈ forest.rootIds := by
  induction forest with
  | nil => simp [hasRoot]
  | node builder children siblings _ inductionHypothesis =>
      simp only [hasRoot, hasId, Bool.or_eq_true, decide_eq_true_eq, inductionHypothesis,
        rootIds_node, List.mem_cons]
      exact or_congr_left eq_comm

theorem contains_iff : forest.contains (hasId id) = true ↔ id ∈ forest.ids := by
  induction forest with
  | nil => simp [contains]
  | node builder children siblings childrenHypothesis siblingsHypothesis =>
      simp only [contains, hasId, Bool.or_eq_true, decide_eq_true_eq, childrenHypothesis,
        siblingsHypothesis, ids_node, List.mem_cons, List.mem_append, or_assoc]
      exact or_congr_left eq_comm

theorem exists_find?_iff :
    (∃ found, forest.find? (hasId id) = some found) ↔ id ∈ forest.ids := by
  induction forest with
  | nil => simp [Forest.find?]
  | node builder children siblings childrenHypothesis siblingsHypothesis =>
      rw [Forest.find?, ids_node, List.mem_cons, List.mem_append, ← childrenHypothesis,
        ← siblingsHypothesis]
      by_cases own : builder.id = id
      · simp [hasId, own]
      · simp only [hasId, own, decide_false, Bool.false_eq_true, if_false, Ne.symm own, false_or]
        cases children.find? (hasId id) <;> simp

theorem find?_eq_none_iff : forest.find? (hasId id) = none ↔ id ∉ forest.ids := by
  rw [← exists_find?_iff, Option.eq_none_iff_forall_ne_some, not_exists]

theorem isRoot_or_exists_parent?
    (member : id ∈ forest.ids) :
    id ∈ forest.rootIds ∨ ∃ owner, forest.parent? (hasId id) = some owner := by
  induction forest with
  | nil => simp at member
  | node builder children siblings childrenHypothesis siblingsHypothesis =>
      rw [Forest.parent?]
      by_cases isChild : children.hasRoot (hasId id) = true
      · exact Or.inr ⟨builder, if_pos isChild⟩
      · rw [if_neg isChild]
        rw [hasRoot_iff] at isChild
        simp only [ids_node, List.mem_cons, List.mem_append] at member
        rcases member with rfl | inChildren | inSiblings
        · exact Or.inl List.mem_cons_self
        · obtain ⟨owner, isParent⟩ := (childrenHypothesis inChildren).resolve_left isChild
          exact Or.inr ⟨owner, by rw [isParent, Option.some_or]⟩
        · rcases siblingsHypothesis inSiblings with isSibling | ⟨owner, isParent⟩
          · exact Or.inl (List.mem_cons_of_mem _ isSibling)
          · right
            cases children.parent? (hasId id) with
            | none => exact ⟨owner, by rw [isParent, Option.none_or]⟩
            | some nearer => exact ⟨nearer, Option.some_or⟩

theorem modify_of_notMem
    (absent : id ∉ forest.ids)
    (f : Builder → Builder) :
    forest.modify (hasId id) f = forest := by
  induction forest with
  | nil => rfl
  | node builder children siblings childrenHypothesis siblingsHypothesis =>
      simp only [ids_node, List.mem_cons, List.mem_append, not_or] at absent
      obtain ⟨different, notInChildren, notInSiblings⟩ := absent
      have childrenEq := childrenHypothesis notInChildren
      have siblingsEq := siblingsHypothesis notInSiblings
      rw [Forest.modify] at childrenEq siblingsEq ⊢
      rw [Forest.map, childrenEq, siblingsEq, if_neg (by simp [hasId, Ne.symm different])]

theorem rootIds_map
    {f : Builder → Builder}
    (keepsId : ∀ builder, (f builder).id = builder.id)
    (forest : Forest Builder) :
    (forest.map f).rootIds = forest.rootIds := by
  induction forest with
  | nil => rfl
  | node builder children siblings _ inductionHypothesis =>
      simp [Forest.map, inductionHypothesis, keepsId]

theorem ids_map
    {f : Builder → Builder}
    (keepsId : ∀ builder, (f builder).id = builder.id)
    (forest : Forest Builder) :
    (forest.map f).ids = forest.ids := by
  simp only [ids, toList_map, List.map_map]
  exact List.map_congr_left fun builder _ => keepsId builder

theorem replaceTrees_of_notMem
    (absent : id ∉ forest.ids)
    (f : Builder → Forest Builder → Builder × Forest Builder) :
    forest.replaceTrees (hasId id) f = forest := by
  induction forest with
  | nil => rfl
  | node builder children siblings childrenHypothesis siblingsHypothesis =>
      simp only [ids_node, List.mem_cons, List.mem_append, not_or] at absent
      obtain ⟨different, notInChildren, notInSiblings⟩ := absent
      simp [replaceTrees, hasId, Ne.symm different, childrenHypothesis notInChildren,
        siblingsHypothesis notInSiblings]

theorem map_ite_of_forall_mem
    {ids : List Nat}
    (all : ∀ id ∈ forest.ids, id ∈ ids)
    (f : Builder → Builder) :
    (forest.map fun builder => if builder.id ∈ ids then f builder else builder) =
      forest.map f :=
  map_congr fun _ member => if_pos (all _ (List.mem_map_of_mem member))

private theorem map_ite_of_forall_notMem
    {ids : List Nat}
    (none : ∀ id ∈ forest.ids, id ∉ ids)
    (f : Builder → Builder) :
    (forest.map fun builder => if builder.id ∈ ids then f builder else builder) = forest :=
  calc
    (forest.map fun builder => if builder.id ∈ ids then f builder else builder)
        = forest.map fun builder => builder :=
      map_congr fun _ member => if_neg (none _ (List.mem_map_of_mem member))
    _ = forest := map_id forest

theorem ids_sublist_of_find?
    {builder : Builder}
    {below : Forest Builder}
    (found : forest.find? (hasId id) = some (builder, below)) :
    (single builder below).ids.Sublist forest.ids := by
  induction forest with
  | nil => simp [Forest.find?] at found
  | node root children siblings childrenHypothesis siblingsHypothesis =>
      rw [Forest.find?] at found
      rw [ids_node]
      split at found
      · obtain ⟨rfl, rfl⟩ := Prod.mk.inj (Option.some.inj found)
        rw [ids_single]
        exact (List.sublist_append_left _ _).cons_cons _
      · rcases Option.or_eq_some_iff.1 found with inChildren | ⟨_, inSiblings⟩
        · exact ((childrenHypothesis inChildren).trans (List.sublist_append_left _ _)).cons _
        · exact ((siblingsHypothesis inSiblings).trans (List.sublist_append_right _ _)).cons _

/-- A change of all builders of a tree is a change of the builders with ids from
that tree. -/
theorem replaceTrees_eq_map
    {builder : Builder}
    {below : Forest Builder}
    {f : Builder → Builder}
    (nodup : forest.ids.Nodup)
    (found : forest.find? (hasId id) = some (builder, below)) :
    (forest.replaceTrees (hasId id) fun builder below => (f builder, below.map f)) =
      forest.map fun other =>
        if other.id ∈ (single builder below).ids then f other else other := by
  induction forest with
  | nil => rfl
  | node root children siblings childrenHypothesis siblingsHypothesis =>
      simp only [ids_node, List.nodup_cons, List.mem_append, not_or, List.nodup_append] at nodup
      obtain ⟨⟨notInChildren, notInSiblings⟩, childrenNodup, siblingsNodup, apart⟩ := nodup
      rw [Forest.find?] at found
      rw [replaceTrees, Forest.map]
      split at found
      · next own =>
          obtain ⟨rfl, rfl⟩ := Prod.mk.inj (Option.some.inj found)
          obtain rfl : root.id = id := by simpa [hasId] using own
          rw [if_pos own, replaceTrees_of_notMem notInSiblings, if_pos (by simp),
            map_ite_of_forall_mem (by simp +contextual),
            map_ite_of_forall_notMem]
          intro other inSiblings inTree
          rw [ids_single, List.mem_cons] at inTree
          rcases inTree with rfl | inChildren
          · exact notInSiblings inSiblings
          · exact apart other inChildren other inSiblings rfl
      · next different =>
          rw [if_neg different]
          rcases Option.or_eq_some_iff.1 found with inChildren | ⟨notFound, inSiblings⟩
          · have inside := (ids_sublist_of_find? inChildren).subset
            have idInside := exists_find?_iff.1 ⟨_, inChildren⟩
            have siblingsEq := map_ite_of_forall_notMem
              (fun other inSiblings inTree => apart other (inside inTree) other inSiblings rfl) f
            rw [childrenHypothesis childrenNodup inChildren,
              replaceTrees_of_notMem fun other => apart id idInside id other rfl,
              if_neg fun inTree => notInChildren (inside inTree), siblingsEq]
          · have inside := (ids_sublist_of_find? inSiblings).subset
            have childrenEq := map_ite_of_forall_notMem
              (fun other inChildren inTree => apart other inChildren other (inside inTree) rfl) f
            rw [siblingsHypothesis siblingsNodup inSiblings,
              replaceTrees_of_notMem (find?_eq_none_iff.1 notFound),
              if_neg fun inTree => notInSiblings (inside inTree), childrenEq]

theorem rootIds_replaceTrees
    (test : Builder → Bool)
    {f : Builder → Forest Builder → Builder × Forest Builder}
    (keepsId : ∀ builder below, (f builder below).1.id = builder.id)
    (forest : Forest Builder) :
    (forest.replaceTrees test f).rootIds = forest.rootIds := by
  induction forest with
  | nil => rfl
  | node builder children siblings _ inductionHypothesis =>
      rw [replaceTrees]
      split
      · simp [inductionHypothesis, keepsId]
      · simp [inductionHypothesis]

theorem ids_attach
    {parent : Nat}
    (nodup : forest.ids.Nodup)
    (member : parent ∈ forest.ids)
    (tree : Forest Builder) :
    (attach parent tree forest).ids.Perm (forest.ids ++ tree.ids) := by
  rw [List.perm_iff_count, attach]
  intro id
  induction forest with
  | nil => simp at member
  | node builder children siblings childrenHypothesis siblingsHypothesis =>
      simp only [ids_node, List.nodup_cons, List.mem_append, not_or, List.nodup_append] at nodup
      obtain ⟨⟨_, notInSiblings⟩, childrenNodup, siblingsNodup, apart⟩ := nodup
      rw [replaceTrees]
      by_cases own : builder.id = parent
      · subst own
        rw [if_pos (by simp [hasId]), replaceTrees_of_notMem notInSiblings]
        simp only [ids_node, ids_append, List.count_append, List.count_cons]
        omega
      · rw [if_neg (by simp [hasId, own])]
        simp only [ids_node, List.mem_cons, Ne.symm own, List.mem_append, false_or] at member
        simp only [ids_node, List.count_append, List.count_cons]
        rcases member with inChildren | inSiblings
        · rw [replaceTrees_of_notMem fun other => apart _ inChildren _ other rfl]
          have counted := childrenHypothesis childrenNodup inChildren
          rw [List.count_append] at counted
          omega
        · rw [replaceTrees_of_notMem fun other => apart _ other _ inSiblings rfl]
          have counted := siblingsHypothesis siblingsNodup inSiblings
          rw [List.count_append] at counted
          omega

/-- A root stands with everything below it between the other roots. -/
theorem exists_split_of_root
    {builder : Builder}
    {below : Forest Builder}
    (nodup : forest.ids.Nodup)
    (isRoot : id ∈ forest.rootIds)
    (found : forest.find? (hasId id) = some (builder, below)) :
    ∃ front back,
      forest = front ++ (single builder below ++ back) ∧
        forest.eraseRoot (hasId id) = front ++ back := by
  induction forest with
  | nil => simp at isRoot
  | node root children siblings _ inductionHypothesis =>
      simp only [ids_node, List.nodup_cons, List.nodup_append] at nodup
      obtain ⟨_, _, siblingsNodup, apart⟩ := nodup
      rw [Forest.find?] at found
      rw [eraseRoot]
      by_cases own : root.id = id
      · rw [if_pos (by simp [hasId, own]), Option.some.injEq] at found
        obtain ⟨rfl, rfl⟩ := Prod.mk.inj found
        exact ⟨nil, siblings, rfl, if_pos (by simp [hasId, own])⟩
      · have isSibling : id ∈ siblings.rootIds := by
          simpa [Ne.symm own] using isRoot
        have notInChildren : id ∉ children.ids := fun other =>
          apart _ other _ ((rootIds_sublist_ids siblings).subset isSibling) rfl
        rw [if_neg (by simp [hasId, own]), find?_eq_none_iff.2 notInChildren,
          Option.none_or] at found
        obtain ⟨front, back, rfl, eraseEq⟩ := inductionHypothesis siblingsNodup isSibling found
        refine ⟨node root children front, back, rfl, ?_⟩
        rw [if_neg (by simp [hasId, own]), eraseEq, node_append]

/-- Death takes builders away and brings none. -/
theorem ids_prune_sublist (forest : Forest Builder) : (prune forest).ids.Sublist forest.ids := by
  induction forest with
  | nil => exact List.Sublist.slnil
  | node builder children siblings childrenHypothesis siblingsHypothesis =>
      rw [prune, ids_node]
      split
      · rw [ids_node]
        exact ((List.Sublist.refl _).append siblingsHypothesis).cons_cons _
      · rw [ids_append]
        exact (childrenHypothesis.append siblingsHypothesis).cons _

/-- What is held does not die. -/
theorem mem_prune_of_held
    {builder : Builder}
    (member : builder ∈ forest.toList)
    (held : builder.held = true) :
    builder ∈ (prune forest).toList := by
  induction forest with
  | nil => simp [toList] at member
  | node root children siblings childrenHypothesis siblingsHypothesis =>
      simp only [toList, List.mem_cons, List.mem_append] at member
      rw [prune]
      split
      · simp only [toList, List.mem_cons, List.mem_append]
        exact member.imp_right (Or.imp_right siblingsHypothesis)
      · next notHeld =>
          rw [toList_append, List.mem_append]
          rcases member with rfl | inChildren | inSiblings
          · exact absurd held notHeld
          · exact Or.inl (childrenHypothesis inChildren)
          · exact Or.inr (siblingsHypothesis inSiblings)

/-- The roots that death leaves are held. -/
theorem held_of_mem_trees_prune
    {tree : Builder × Forest Builder}
    (member : tree ∈ (prune forest).trees) :
    tree.1.held = true := by
  induction forest with
  | nil => simp [prune, trees] at member
  | node builder children siblings childrenHypothesis siblingsHypothesis =>
      rw [prune] at member
      split at member
      · next held =>
          rcases List.mem_cons.1 member with rfl | later
          · exact held
          · exact siblingsHypothesis later
      · rw [trees_append, List.mem_append] at member
        exact member.elim childrenHypothesis siblingsHypothesis

end BuilderPool

end MacroRegions

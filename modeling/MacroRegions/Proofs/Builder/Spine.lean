import MacroRegions.Proofs.Builder.Ids

/-!
Builders one within the other.

A spine is a row of builders, the innermost first, of which each is the last child of
the next one. Pairing keeps its pool in this form: it adds fresh builders to the
innermost one, changes those of the spine and releases them.
-/

namespace MacroRegions

namespace BuilderPool

open Forest

/-- The forest of a spine: each builder of it stands behind the finished builders
below the next one. Here `inner` is the last in the innermost one. -/
def chain : List (Builder × Forest Builder) → Forest Builder → Forest Builder
  | [], inner => inner
  | (builder, below) :: outer, inner => chain outer (.single builder (below ++ inner))

def spineIds (spine : List (Builder × Forest Builder)) : List Nat :=
  spine.flatMap fun tree => tree.1.id :: tree.2.ids

variable {spine front outer : List (Builder × Forest Builder)} {inner below forest : Forest Builder}
  {builder fresh root : Builder} {pool : BuilderPool} {id : Nat}

theorem chain_append
    (front outer : List (Builder × Forest Builder))
    (inner : Forest Builder) :
    chain (front ++ outer) inner = chain outer (chain front inner) := by
  induction front generalizing inner with
  | nil => rfl
  | cons tree front inductionHypothesis => exact inductionHypothesis _

theorem ids_chain (spine : List (Builder × Forest Builder)) (inner : Forest Builder) :
    (chain spine inner).ids.Perm (spineIds spine ++ inner.ids) := by
  induction spine generalizing inner with
  | nil => exact List.Perm.refl _
  | cons tree outer inductionHypothesis =>
      obtain ⟨builder, below⟩ := tree
      refine (inductionHypothesis _).trans ?_
      rw [List.perm_iff_count]
      intro id
      simp only [spineIds, List.flatMap_cons, ids_single, ids_append, List.count_append,
        List.count_cons]
      omega

private theorem nodup_ids_chain (nodup : (spineIds spine).Nodup) :
    (chain spine .nil).ids.Nodup := by
  rw [(ids_chain spine .nil).nodup_iff, ids_nil, List.append_nil]
  exact nodup

theorem spineIds_append (front outer : List (Builder × Forest Builder)) :
    spineIds (front ++ outer) = spineIds front ++ spineIds outer :=
  List.flatMap_append

@[simp]
theorem spineIds_cons (tree : Builder × Forest Builder) (outer : List (Builder × Forest Builder)) :
    spineIds (tree :: outer) = tree.1.id :: (tree.2.ids ++ spineIds outer) := rfl

private theorem spineIds_congr
    {other : Builder}
    (same : other.id = builder.id) :
    spineIds (front ++ (other, below) :: outer) =
      spineIds (front ++ (builder, below) :: outer) := by
  rw [spineIds_append, spineIds_append, spineIds_cons, spineIds_cons, same]

/-- The ids around a builder of a spine are others. -/
theorem notMem_of_nodup_spineIds
    (nodup : (spineIds (front ++ (builder, below) :: outer)).Nodup) :
    builder.id ∉ spineIds front ∧ builder.id ∉ below.ids ∧ builder.id ∉ spineIds outer := by
  rw [spineIds_append, spineIds_cons] at nodup
  have notMem := (List.nodup_middle.1 nodup).notMem
  simpa only [List.mem_append, not_or] using notMem

private theorem mem_toList_chain :
    builder ∈ (chain (front ++ (builder, below) :: outer) inner).toList := by
  have outward : ∀ (spine : List (Builder × Forest Builder)) (inner : Forest Builder),
      builder ∈ inner.toList → builder ∈ (chain spine inner).toList := by
    intro spine
    induction spine with
    | nil => exact fun _ member => member
    | cons tree outer inductionHypothesis =>
        intro inner member
        refine inductionHypothesis _ ?_
        simp [Forest.single, Forest.toList, member]
  rw [chain_append]
  exact outward outer _ (by simp [Forest.single, Forest.toList])

private theorem exists_find?_of_mem
    (nodup : forest.ids.Nodup)
    (member : builder ∈ forest.toList) :
    ∃ below, forest.find? (hasId builder.id) = some (builder, below) := by
  induction forest with
  | nil => simp [Forest.toList] at member
  | node other children siblings childrenHypothesis siblingsHypothesis =>
      simp only [ids_node, List.nodup_cons, List.mem_append, not_or, List.nodup_append] at nodup
      obtain ⟨⟨notInChildren, notInSiblings⟩, childrenNodup, siblingsNodup, apart⟩ := nodup
      have idMember : ∀ {part : Forest Builder}, builder ∈ part.toList → builder.id ∈ part.ids :=
        fun inPart => List.mem_map_of_mem inPart
      simp only [Forest.toList, List.mem_cons, List.mem_append] at member
      rw [Forest.find?]
      rcases member with rfl | inChildren | inSiblings
      · exact ⟨children, if_pos (by simp [hasId])⟩
      · have different : ¬ hasId builder.id other = true := by
          simp only [hasId, decide_eq_true_eq]
          exact fun same => notInChildren (same ▸ idMember inChildren)
        obtain ⟨below, found⟩ := childrenHypothesis childrenNodup inChildren
        exact ⟨below, by rw [if_neg different, found, Option.some_or]⟩
      · have different : ¬ hasId builder.id other = true := by
          simp only [hasId, decide_eq_true_eq]
          exact fun same => notInSiblings (same ▸ idMember inSiblings)
        have notFound : children.find? (hasId builder.id) = none :=
          find?_eq_none_iff.2 fun inChildren =>
            apart _ inChildren _ (idMember inSiblings) rfl
        obtain ⟨below, found⟩ := siblingsHypothesis siblingsNodup inSiblings
        exact ⟨below, by rw [if_neg different, notFound, Option.none_or, found]⟩

private theorem map_chain
    (f : Builder → Builder)
    (spine : List (Builder × Forest Builder))
    (inner : Forest Builder) :
    (chain spine inner).map f =
      chain (spine.map fun tree => (f tree.1, tree.2.map f)) (inner.map f) := by
  induction spine generalizing inner with
  | nil => rfl
  | cons tree outer inductionHypothesis =>
      obtain ⟨builder, below⟩ := tree
      rw [chain, inductionHypothesis, List.map_cons, chain]
      simp [Forest.single, Forest.map, map_append]

private theorem modify_spine_of_notMem
    (absent : id ∉ spineIds spine)
    (f : Builder → Builder) :
    (spine.map fun tree =>
        (if hasId id tree.1 then f tree.1 else tree.1, tree.2.modify (hasId id) f)) =
      spine := by
  induction spine with
  | nil => rfl
  | cons tree outer inductionHypothesis =>
      simp only [spineIds, List.flatMap_cons, List.cons_append, List.mem_cons, List.mem_append,
        not_or] at absent
      obtain ⟨different, notBelow, notOuter⟩ := absent
      rw [List.map_cons, inductionHypothesis notOuter, modify_of_notMem notBelow,
        if_neg (by simp [hasId, Ne.symm different])]

/-- A place in a forest for a builder that is found by its id. -/
structure IsPlace (id : Nat) (place : Builder → Forest Builder) : Prop where
  find? : ∀ builder, builder.id = id →
    ∃ below, (place builder).find? (hasId id) = some (builder, below)
  modify : ∀ builder f, builder.id = id →
    (place builder).modify (hasId id) f = place (f builder)

/-- The forest of a spine with `builder` at a place of it. -/
def placeIn
    (front : List (Builder × Forest Builder))
    (below : Forest Builder)
    (outer : List (Builder × Forest Builder))
    (builder : Builder) :
    Forest Builder :=
  chain (front ++ (builder, below) :: outer) .nil

/-- A builder of a spine has its place there. -/
theorem isPlace_placeIn
    (nodup : (spineIds (front ++ (builder, below) :: outer)).Nodup) :
    IsPlace builder.id (placeIn front below outer) where
  find? := by
    intro other same
    rw [← same]
    rw [← spineIds_congr same] at nodup
    exact exists_find?_of_mem (nodup_ids_chain nodup) mem_toList_chain
  modify := by
    intro other f same
    rw [placeIn]
    obtain ⟨notFront, notBelow, notOuter⟩ := notMem_of_nodup_spineIds nodup
    have frontEq := modify_spine_of_notMem notFront f
    have belowEq := modify_of_notMem notBelow f
    have outerEq := modify_spine_of_notMem notOuter f
    rw [Forest.modify] at belowEq ⊢
    simp only [Forest.modify] at frontEq outerEq
    rw [map_chain, List.map_append, List.map_cons, frontEq, outerEq, belowEq,
      if_pos (by simp [hasId, same])]
    rfl

namespace IsPlace

variable {place : Builder → Forest Builder}

theorem block?_eq
    (isPlace : IsPlace id place)
    (pool : BuilderPool)
    (builder : Builder)
    (same : builder.id = id)
    (forestEq : pool.forest = place builder) :
    pool.block? id = some builder.block := by
  obtain ⟨below, found⟩ := isPlace.find? builder same
  rw [block?, BuilderPool.find?, forestEq, found]
  rfl

theorem modifyBlock_eq
    (isPlace : IsPlace id place)
    (pool : BuilderPool)
    (builder : Builder)
    (same : builder.id = id)
    (forestEq : pool.forest = place builder)
    (f : Block → Block) :
    pool.modifyBlock id f =
      { pool with forest := place { builder with block := f builder.block } } := by
  rw [modifyBlock, forestEq, isPlace.modify _ _ same]

end IsPlace

/-- A builder that is released lives on below one that is held. -/
theorem release_placeIn
    {finished : Forest Builder}
    (isPlace : IsPlace id (placeIn front below (outer ++ [(root, finished)])))
    (pool : BuilderPool)
    (builder : Builder)
    (same : builder.id = id)
    (held : root.held = true)
    (forestEq : pool.forest = placeIn front below (outer ++ [(root, finished)]) builder) :
    pool.release id =
      { pool with
        forest :=
          placeIn front below (outer ++ [(root, finished)]) { builder with held := false } } := by
  have pruneEq : ∀ spine : List (Builder × Forest Builder),
      prune (chain (spine ++ [(root, finished)]) .nil) =
        chain (spine ++ [(root, finished)]) .nil := by
    intro spine
    rw [chain_append, chain, chain, Forest.single, prune, if_pos held, prune]
  have placedEq := pruneEq (front ++ ({ builder with held := false }, below) :: outer)
  rw [List.append_assoc, List.cons_append] at placedEq
  rw [release, forestEq, isPlace.modify _ _ same, placeIn, placedEq]

private theorem hasRoot_of_notMem (absent : id ∉ forest.ids) :
    forest.hasRoot (hasId id) = false := by
  rw [← Bool.not_eq_true, hasRoot_iff]
  exact fun isRoot => absent ((rootIds_sublist_ids forest).subset isRoot)

private theorem parent?_of_notMem (absent : id ∉ forest.ids) :
    forest.parent? (hasId id) = none := by
  induction forest with
  | nil => rfl
  | node builder children siblings childrenHypothesis siblingsHypothesis =>
      simp only [ids_node, List.mem_cons, List.mem_append, not_or] at absent
      obtain ⟨_, notInChildren, notInSiblings⟩ := absent
      rw [Forest.parent?, hasRoot_of_notMem notInChildren, if_neg Bool.false_ne_true,
        childrenHypothesis notInChildren, siblingsHypothesis notInSiblings, Option.none_or]

/-- A tree that was put behind others is found as a root. -/
theorem find?_concat
    (absent : fresh.id ∉ forest.ids)
    (tree : Forest Builder) :
    (forest ++ .single fresh tree).find? (hasId fresh.id) = some (fresh, tree) := by
  induction forest with
  | nil => exact if_pos (by simp [hasId])
  | node builder children siblings _ inductionHypothesis =>
      simp only [ids_node, List.mem_cons, List.mem_append, not_or] at absent
      obtain ⟨different, notInChildren, notInSiblings⟩ := absent
      rw [node_append, Forest.find?, if_neg (by simp [hasId, Ne.symm different]),
        find?_eq_none_iff.2 notInChildren, Option.none_or, inductionHypothesis notInSiblings]

private theorem parent?_concat
    (absent : fresh.id ∉ forest.ids) :
    (forest ++ .single fresh .nil).parent? (hasId fresh.id) = none := by
  induction forest with
  | nil => rfl
  | node builder children siblings _ inductionHypothesis =>
      simp only [ids_node, List.mem_cons, List.mem_append, not_or] at absent
      obtain ⟨_, notInChildren, notInSiblings⟩ := absent
      rw [node_append, Forest.parent?, hasRoot_of_notMem notInChildren,
        if_neg Bool.false_ne_true, parent?_of_notMem notInChildren, Option.none_or,
        inductionHypothesis notInSiblings]

private theorem eraseRoot_concat
    (absent : fresh.id ∉ forest.ids)
    (tree : Forest Builder) :
    (forest ++ .single fresh tree).eraseRoot (hasId fresh.id) = forest := by
  induction forest with
  | nil => exact if_pos (by simp [hasId])
  | node builder children siblings _ inductionHypothesis =>
      simp only [ids_node, List.mem_cons, List.mem_append, not_or] at absent
      obtain ⟨different, _, notInSiblings⟩ := absent
      rw [node_append, eraseRoot, if_neg (by simp [hasId, Ne.symm different]),
        inductionHypothesis notInSiblings]

private theorem replaceTrees_append
    (test : Builder → Bool)
    (f : Builder → Forest Builder → Builder × Forest Builder)
    (left right : Forest Builder) :
    (left ++ right).replaceTrees test f =
      left.replaceTrees test f ++ right.replaceTrees test f := by
  induction left with
  | nil => rfl
  | node builder children siblings _ inductionHypothesis =>
      rw [node_append, replaceTrees, replaceTrees, inductionHypothesis]
      split <;> rfl

private theorem attach_chain
    (absent : id ∉ spineIds outer)
    (tree inner : Forest Builder) :
    attach id tree (chain outer inner) = chain outer (attach id tree inner) := by
  induction outer generalizing inner with
  | nil => rfl
  | cons around outer inductionHypothesis =>
      obtain ⟨builder, below⟩ := around
      simp only [spineIds, List.flatMap_cons, List.cons_append, List.mem_cons, List.mem_append,
        not_or] at absent
      obtain ⟨different, notBelow, notOuter⟩ := absent
      rw [chain, chain, inductionHypothesis notOuter, attach, attach, Forest.single, replaceTrees,
        if_neg (by simp [hasId, Ne.symm different]), replaceTrees_append,
        replaceTrees_of_notMem notBelow, replaceTrees, Forest.single]

private theorem attach_single (builder : Builder) (below tree : Forest Builder) :
    attach builder.id tree (.single builder below) = .single builder (below ++ tree) := by
  rw [attach, Forest.single, replaceTrees, if_pos (by simp [hasId]), replaceTrees]
  rfl

def placeBehind (forest : Forest Builder) (builder : Builder) : Forest Builder :=
  forest ++ .single builder .nil

/-- A builder behind others has its place there. -/
theorem isPlace_placeBehind (absent : id ∉ forest.ids) : IsPlace id (placeBehind forest) where
  find? := by
    rintro builder rfl
    exact ⟨.nil, find?_concat absent .nil⟩
  modify := by
    rintro builder f rfl
    have forestEq := modify_of_notMem absent f
    rw [Forest.modify] at forestEq ⊢
    rw [placeBehind, map_append, forestEq, Forest.single, Forest.map, if_pos (by simp [hasId])]
    rfl

/-- A fresh builder can be added to the innermost one. -/
theorem addChild_chain
    (pool : BuilderPool)
    (fresh : Builder)
    (nodup : (spineIds ((builder, below) :: outer)).Nodup)
    (absent : fresh.id ∉ (chain ((builder, below) :: outer) .nil).ids)
    (forestEq : pool.forest = placeBehind (chain ((builder, below) :: outer) .nil) fresh) :
    pool.addChild builder.id fresh.id =
      .ok { pool with forest := chain ((fresh, .nil) :: (builder, below) :: outer) .nil } := by
  have innermost : builder ∈ (chain ([] ++ (builder, below) :: outer) .nil).toList :=
    mem_toList_chain
  have member : builder.id ∈ (chain ((builder, below) :: outer) .nil).ids :=
    List.mem_map_of_mem innermost
  have others : (spineIds ([] ++ (builder, below) :: outer)).Nodup := nodup
  have notOuter : builder.id ∉ spineIds outer := (notMem_of_nodup_spineIds others).2.2
  have different : builder.id ∉ (Forest.single fresh .nil).ids := by
    simp only [ids_single, ids_nil, List.mem_singleton]
    exact fun same => absent (same ▸ member)
  have parentEq : pool.parent? fresh.id = none := by
    rw [parent?, forestEq, placeBehind, parent?_concat absent, Option.map_none]
  have found : pool.find? fresh.id = some (fresh, .nil) := by
    rw [find?, forestEq, placeBehind, find?_concat absent]
  have contained : pool.forest.contains (hasId builder.id) = true := by
    rw [contains_iff, forestEq, placeBehind, ids_append]
    exact List.mem_append_left _ member
  simp only [addChild, parentEq, found]
  rw [if_neg (mt contains_iff.1 different), if_pos contained, forestEq, placeBehind,
    eraseRoot_concat absent, chain, attach_chain notOuter, append_nil, attach_single]
  rfl

end BuilderPool

end MacroRegions

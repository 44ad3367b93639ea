import MacroRegions.Proofs.Builder.Ownership

/-!
Calls on builders.

Every call does to the nodes what the pool does to its forest, so the heap mirrors
what comes of the forest. There is one lemma for each call.
-/

namespace MacroRegions

namespace BuilderHeap

variable {heap heap' : BuilderHeap} {parent : Option Nat} {id owner child : Nat}
  {forest forest' below : Forest Builder} {builder : Builder}

private theorem Covers.replace
    (covers : heap.Covers forest)
    (stores : heap'.Stores none forest')
    (idsPerm : forest'.ids.Perm forest.ids)
    (roots : forest'.rootIds ⊆ forest.rootIds)
    (parents : ∀ id ∈ forest'.rootIds, (heap'.node id).parent = (heap.node id).parent)
    (countEq : heap'.count = heap.count)
    (handles : ∀ id, 0 < heap'.handles id → id ∈ forest.ids) :
    heap'.Covers forest' where
  stores := stores
  nodup := idsPerm.nodup_iff.2 covers.nodup
  fresh := fun id member => countEq ▸ covers.fresh id (idsPerm.subset member)
  handles := fun id held => idsPerm.symm.subset (handles id held)
  apart := by
    intro id isRoot owner parentEq member
    rw [parents id isRoot] at parentEq
    exact covers.apart id (roots isRoot) owner parentEq (idsPerm.subset member)
  bounded := by
    intro id isRoot owner parentEq
    rw [parents id isRoot] at parentEq
    rw [countEq]
    exact covers.bounded id (roots isRoot) owner parentEq

/-- A heap that differs in builders outside a forest mirrors it too. -/
theorem Mirrors.congr
    (mirrors : heap.Mirrors forest)
    (same : ∀ id, heap.SameNode heap' id)
    (countEq : heap'.count = heap.count) :
    heap'.Mirrors forest where
  toCovers :=
    mirrors.toCovers.replace (mirrors.stores.congr fun id _ => same id) (List.Perm.refl _)
      (List.Subset.refl _) (fun id _ => congrArg BuilderNode.parent (same id).1) countEq
      (fun id held => mirrors.handles id ((same id).2.1 held))
  rootsHeld := fun id isRoot => (same id).2.2 (mirrors.rootsHeld id isRoot)

/-- Builders are other ones in two heaps, in the same places. -/
structure ChangesTo (heap heap' : BuilderHeap) (f : Builder → Builder) : Prop where
  keepsId : ∀ builder, (f builder).id = builder.id
  stored : ∀ parent builder children,
    heap.StoresBuilder parent builder children → heap'.StoresBuilder parent (f builder) children
  parents : ∀ id, (heap'.node id).parent = (heap.node id).parent
  countEq : heap'.count = heap.count

variable {f : Builder → Builder}

theorem ChangesTo.stores
    (changes : heap.ChangesTo heap' f)
    (stores : heap.Stores parent forest) :
    heap'.Stores parent (forest.map f) := by
  induction forest generalizing parent with
  | nil => trivial
  | node builder children siblings childrenHypothesis siblingsHypothesis =>
      obtain ⟨stored, within, beside⟩ := stores
      refine ⟨?_, ?_, siblingsHypothesis beside⟩
      · rw [BuilderPool.rootIds_map changes.keepsId]
        exact changes.stored _ _ _ stored
      · rw [changes.keepsId]
        exact childrenHypothesis within

theorem ChangesTo.covers
    (changes : heap.ChangesTo heap' f)
    (covers : heap.Covers forest)
    (handles : ∀ id, 0 < heap'.handles id → id ∈ forest.ids) :
    heap'.Covers (forest.map f) := by
  refine
    covers.replace (changes.stores covers.stores) ?_ ?_ (fun id _ => changes.parents id)
      changes.countEq handles
  · rw [BuilderPool.ids_map changes.keepsId]
  · rw [BuilderPool.rootIds_map changes.keepsId]
    exact List.Subset.refl _

theorem ChangesTo.mirrors
    (changes : heap.ChangesTo heap' f)
    (mirrors : heap.Mirrors forest)
    (handles : ∀ id, 0 < heap'.handles id → id ∈ forest.ids)
    (held : ∀ id, 0 < heap.handles id → 0 < heap'.handles id) :
    heap'.Mirrors (forest.map f) where
  toCovers := changes.covers mirrors.toCovers handles
  rootsHeld := by
    intro id isRoot
    rw [BuilderPool.rootIds_map changes.keepsId] at isRoot
    exact held id (mirrors.rootsHeld id isRoot)

theorem changesTo_mapBlocks (heap : BuilderHeap) (g : Block → Block) (ids : List Nat) :
    heap.ChangesTo (heap.mapBlocks g ids) fun builder =>
      if builder.id ∈ ids then { builder with block := g builder.block } else builder where
  keepsId := by
    intro builder
    split <;> rfl
  stored := by
    rintro parent builder children ⟨block, childrenEq, held, parentEq⟩
    by_cases changed : builder.id ∈ ids
    · rw [if_pos changed]
      refine ⟨by simp [mapBlocks, changed, block], ?_, held, by simpa [mapBlocks, changed]⟩
      exact (children_mapBlocks g ids builder.id).trans childrenEq
    · rw [if_neg changed]
      refine ⟨by simp [mapBlocks, changed, block], ?_, held, by simpa [mapBlocks, changed]⟩
      exact (children_mapBlocks g ids builder.id).trans childrenEq
  parents := by
    intro id
    simp only [mapBlocks]
    split <;> rfl
  countEq := rfl

theorem Mirrors.mapBlocks
    (mirrors : heap.Mirrors forest)
    (g : Block → Block)
    (ids : List Nat) :
    (heap.mapBlocks g ids).Mirrors
      (forest.map fun builder =>
        if builder.id ∈ ids then { builder with block := g builder.block } else builder) :=
  (changesTo_mapBlocks heap g ids).mirrors mirrors mirrors.handles fun _ held => held

/-- Another block in one builder. -/
theorem Mirrors.modifyBlock
    (mirrors : heap.Mirrors forest)
    (id : Nat)
    (g : Block → Block) :
    (heap.modifyBlock id g).Mirrors
      (forest.modify (BuilderPool.hasId id) fun builder =>
        { builder with block := g builder.block }) := by
  have changed := mirrors.mapBlocks g [id]
  rw [mapBlocks_singleton] at changed
  simpa [Forest.modify, BuilderPool.hasId] using changed

/-- Other blocks in a builder and everything below it. -/
theorem Mirrors.mapTree
    (mirrors : heap.Mirrors forest)
    (found : forest.find? (BuilderPool.hasId id) = some (builder, below))
    (g : Block → Block) :
    let change := fun builder : Builder => { builder with block := g builder.block }
    (heap.mapBlocks g (Forest.single builder below).ids).Mirrors
      (forest.replaceTrees (BuilderPool.hasId id) fun builder below =>
        (change builder, below.map change)) := by
  intro change
  rw [BuilderPool.replaceTrees_eq_map mirrors.nodup found]
  exact mirrors.mapBlocks g _

private theorem StoresBuilder.update_handles
    {children : List Nat}
    (stored : heap.StoresBuilder parent builder children)
    (handles : Nat)
    (held : Bool)
    (heldEq : held = true ↔ 0 < handles) :
    ({ heap with handles := Function.update heap.handles id handles } : BuilderHeap).StoresBuilder
      parent (if BuilderPool.hasId id builder then { builder with held := held } else builder)
      children := by
  obtain ⟨block, childrenEq, builderHeld, parentEq⟩ := stored
  by_cases own : builder.id = id
  · subst own
    rw [if_pos (by simp [BuilderPool.hasId])]
    exact ⟨block, childrenEq, by simpa using heldEq, parentEq⟩
  · rw [if_neg (by simp [BuilderPool.hasId, own])]
    exact ⟨block, childrenEq, by simpa [own] using builderHeld, parentEq⟩

private theorem changesTo_handles
    {handles : Nat}
    {held : Bool}
    (heldEq : held = true ↔ 0 < handles) :
    heap.ChangesTo { heap with handles := Function.update heap.handles id handles } fun builder =>
      if BuilderPool.hasId id builder then { builder with held := held } else builder where
  keepsId := by
    intro builder
    split <;> rfl
  stored := fun _ _ _ stored => stored.update_handles handles held heldEq
  parents := fun _ => rfl
  countEq := rfl

theorem Mirrors.hold
    (mirrors : heap.Mirrors forest)
    (lives : heap.Lives id) :
    (heap.hold id).Mirrors
      (forest.modify (BuilderPool.hasId id) fun builder => { builder with held := true }) := by
  refine (changesTo_handles (by simp)).mirrors mirrors ?_ ?_
  · intro other held
    by_cases own : other = id
    · exact own ▸ mirrors.lives_iff.1 lives
    · exact mirrors.handles other (by simpa [own] using held)
  · intro other held
    by_cases own : other = id
    · simp [own]
    · simpa [own] using held

theorem Mirrors.create (mirrors : heap.Mirrors forest) :
    heap.create.Mirrors
      (forest ++ .single ⟨heap.count, true, ⟨none, none, none⟩⟩ .nil) := by
  have old : ∀ id ∈ forest.ids, id ≠ heap.count := fun id member =>
    Nat.ne_of_lt (mirrors.fresh id member)
  have same : ∀ id ∈ forest.ids, heap.SameNode heap.create id := fun id member =>
    ⟨by simp [BuilderHeap.create, old id member], by simp [BuilderHeap.create, old id member]⟩
  have rootCases : ∀ id ∈
      (forest ++ .single ⟨heap.count, true, ⟨none, none, none⟩⟩ .nil).rootIds,
        id ∈ forest.rootIds ∧ id ∈ forest.ids ∨ id = heap.count := by
    intro id isRoot
    rw [Forest.rootIds_append, List.mem_append, Forest.rootIds_single, List.mem_singleton] at isRoot
    exact isRoot.imp_left fun isOld => ⟨isOld, (Forest.rootIds_sublist_ids forest).subset isOld⟩
  refine ⟨⟨?_, ?_, ?_, ?_, ?_, ?_⟩, ?_⟩
  · refine stores_append.2 ⟨mirrors.stores.congr same, stores_single.2 ⟨?_, trivial⟩⟩
    exact
      ⟨by simp [BuilderHeap.create], by simp [BuilderHeap.create, children],
        by simp [BuilderHeap.create], by simp⟩
  · rw [Forest.ids_append, Forest.ids_single, Forest.ids_nil, List.nodup_append]
    refine ⟨mirrors.nodup, by simp, ?_⟩
    intro id member other isNew
    rw [List.mem_singleton.1 isNew]
    exact old id member
  · intro id member
    simp only [Forest.ids_append, Forest.ids_single, Forest.ids_nil, List.mem_append,
      List.mem_singleton] at member
    rcases member with isOld | rfl
    · exact Nat.lt_succ_of_lt (mirrors.fresh id isOld)
    · exact Nat.lt_succ_self _
  · intro id held
    by_cases isNew : id = heap.count
    · simp [isNew]
    · have isOld := mirrors.handles id (by simpa [BuilderHeap.create, isNew] using held)
      simp [isOld]
  · intro id isRoot owner parentEq member
    rcases rootCases id isRoot with ⟨isOld, isOldId⟩ | rfl
    · rw [(same id isOldId).1] at parentEq
      simp only [Forest.ids_append, Forest.ids_single, Forest.ids_nil, List.mem_append,
        List.mem_singleton] at member
      rcases member with inForest | isNew
      · exact mirrors.apart id isOld owner parentEq inForest
      · exact absurd (mirrors.bounded id isOld owner parentEq) (by simp [isNew])
    · simp [BuilderHeap.create] at parentEq
  · intro id isRoot owner parentEq
    rcases rootCases id isRoot with ⟨isOld, isOldId⟩ | rfl
    · rw [(same id isOldId).1] at parentEq
      exact Nat.lt_succ_of_lt (mirrors.bounded id isOld owner parentEq)
    · simp [BuilderHeap.create] at parentEq
  · intro id isRoot
    rcases rootCases id isRoot with ⟨isOld, isOldId⟩ | rfl
    · exact (same id isOldId).2.2 (mirrors.rootsHeld id isOld)
    · simp [BuilderHeap.create]

theorem Stores.prune (stores : heap.Stores parent forest) :
    heap.Stores none (BuilderPool.prune forest) := by
  induction forest generalizing parent with
  | nil => trivial
  | node builder children siblings childrenHypothesis siblingsHypothesis =>
      obtain ⟨stored, within, beside⟩ := stores
      rw [BuilderPool.prune]
      split
      · exact ⟨stored.of_none, within, siblingsHypothesis beside⟩
      · exact stores_append.2 ⟨childrenHypothesis within, siblingsHypothesis beside⟩

/-- A root that death leaves has been one before, or its parent has died. -/
theorem Stores.isRoot_or_parent_dead
    (stores : heap.Stores parent forest)
    (nodup : forest.ids.Nodup)
    (isRoot : id ∈ (BuilderPool.prune forest).rootIds) :
    id ∈ forest.rootIds ∨
      ∃ owner, (heap.node id).parent = some owner ∧
        owner ∈ forest.ids ∧ owner ∉ (BuilderPool.prune forest).ids := by
  induction forest generalizing parent with
  | nil => simp [BuilderPool.prune] at isRoot
  | node builder children siblings childrenHypothesis siblingsHypothesis =>
      obtain ⟨stored, within, beside⟩ := stores
      simp only [Forest.ids_node, List.nodup_cons, List.mem_append, not_or,
        List.nodup_append] at nodup
      obtain ⟨⟨notInChildren, notInSiblings⟩, childrenNodup, siblingsNodup, apart⟩ := nodup
      have childrenSubset := (BuilderPool.ids_prune_sublist children).subset
      have siblingsSubset := (BuilderPool.ids_prune_sublist siblings).subset
      rw [BuilderPool.prune] at isRoot ⊢
      simp only [Forest.ids_node, Forest.rootIds_node, List.mem_cons, List.mem_append]
      split at isRoot
      · next held =>
          rw [if_pos held]
          simp only [Forest.rootIds_node, List.mem_cons, Forest.ids_node, List.mem_append,
            not_or] at isRoot ⊢
          rcases isRoot with own | later
          · exact Or.inl (Or.inl own)
          · rcases siblingsHypothesis beside siblingsNodup later with
              isSibling | ⟨owner, parentEq, member, died⟩
            · exact Or.inl (Or.inr isSibling)
            · refine Or.inr ⟨owner, parentEq, Or.inr (Or.inr member), ?_, ?_, died⟩
              · rintro rfl
                exact notInSiblings member
              · exact fun inChildren => apart owner inChildren owner member rfl
      · next held =>
          rw [if_neg held]
          simp only [Forest.rootIds_append, List.mem_append, Forest.ids_append,
            not_or] at isRoot ⊢
          rcases isRoot with isChild | later
          · rcases childrenHypothesis within childrenNodup isChild with
              wasChild | ⟨owner, parentEq, member, died⟩
            · refine
                Or.inr ⟨builder.id, within.of_mem_rootIds wasChild, Or.inl rfl, ?_, ?_⟩
              · exact fun inChildren => notInChildren (childrenSubset inChildren)
              · exact fun inSiblings => notInSiblings (siblingsSubset inSiblings)
            · refine Or.inr ⟨owner, parentEq, Or.inr (Or.inl member), died, ?_⟩
              exact fun inSiblings => apart owner member owner (siblingsSubset inSiblings) rfl
          · rcases siblingsHypothesis beside siblingsNodup later with
              isSibling | ⟨owner, parentEq, member, died⟩
            · exact Or.inl (Or.inr isSibling)
            · refine Or.inr ⟨owner, parentEq, Or.inr (Or.inr member), ?_, died⟩
              exact fun inChildren => apart owner (childrenSubset inChildren) owner member rfl

/-- What death leaves of a forest is what lives. -/
theorem Covers.prune (covers : heap.Covers forest) :
    heap.Mirrors (BuilderPool.prune forest) := by
  have sublist := BuilderPool.ids_prune_sublist forest
  refine ⟨⟨covers.stores.prune, covers.nodup.sublist sublist, ?_, ?_, ?_, ?_⟩, ?_⟩
  · exact fun id member => covers.fresh id (sublist.subset member)
  · intro id held
    obtain ⟨builder, member, rfl⟩ := List.mem_map.1 (covers.handles id held)
    obtain ⟨_, stored⟩ := covers.stores.of_mem member
    exact List.mem_map_of_mem (BuilderPool.mem_prune_of_held member (stored.held.2 held))
  · intro id isRoot owner parentEq member
    rcases covers.stores.isRoot_or_parent_dead covers.nodup isRoot with
      wasRoot | ⟨owner', parentEq', _, died⟩
    · exact covers.apart id wasRoot owner parentEq (sublist.subset member)
    · obtain rfl := Option.some.inj (parentEq.symm.trans parentEq')
      exact died member
  · intro id isRoot owner parentEq
    rcases covers.stores.isRoot_or_parent_dead covers.nodup isRoot with
      wasRoot | ⟨owner', parentEq', wasAlive, _⟩
    · exact covers.bounded id wasRoot owner parentEq
    · obtain rfl := Option.some.inj (parentEq.symm.trans parentEq')
      exact covers.fresh owner wasAlive
  · intro id isRoot
    obtain ⟨tree, member, rfl⟩ := List.mem_map.1 isRoot
    exact
      (covers.stores.prune.of_mem_trees member).held.1 (BuilderPool.held_of_mem_trees_prune member)

/-- With the last handle on it, a builder dies that has no parent. -/
theorem Mirrors.dropLast
    (mirrors : heap.Mirrors forest)
    (last : heap.handles id - 1 = 0) :
    (heap.drop id).Mirrors
      (BuilderPool.prune
        (forest.modify (BuilderPool.hasId id) fun builder => { builder with held := false })) := by
  refine
    ((changesTo_handles (by simp [last])).covers mirrors.toCovers fun other held => ?_).prune
  by_cases own : other = id
  · simp [own, last] at held
  · exact mirrors.handles other (by simpa [own] using held)

/-- With one handle of several nothing dies. -/
theorem Mirrors.dropOne
    (mirrors : heap.Mirrors forest)
    (more : heap.handles id - 1 ≠ 0) :
    (heap.drop id).Mirrors forest := by
  refine mirrors.congr (fun other => ⟨rfl, ?_⟩) rfl
  by_cases own : other = id
  · subst own
    simp only [drop, Function.update_self]
    omega
  · simp [drop, own]

/-! ## Children -/

theorem Stores.attach
    {tree : Forest Builder}
    (stores : heap.Stores parent forest)
    (nodup : forest.ids.Nodup)
    (others : ∀ id ∈ forest.ids, id ≠ owner → heap.SameNode heap' id)
    (own : ∀ parent builder children, builder.id = owner →
      heap.StoresBuilder parent builder children →
        heap'.StoresBuilder parent builder (children ++ tree.rootIds))
    (treeStored : heap'.Stores (some owner) tree) :
    heap'.Stores parent (BuilderPool.attach owner tree forest) := by
  rw [BuilderPool.attach]
  induction forest generalizing parent with
  | nil => trivial
  | node builder children siblings childrenHypothesis siblingsHypothesis =>
      obtain ⟨stored, within, beside⟩ := stores
      simp only [Forest.ids_node, List.nodup_cons, List.mem_append, not_or,
        List.nodup_append, List.mem_cons, forall_eq_or_imp] at nodup others
      obtain ⟨⟨notInChildren, notInSiblings⟩, childrenNodup, siblingsNodup, _⟩ := nodup
      obtain ⟨builderSame, restSame⟩ := others
      have childrenSame := fun id member => restSame id (Or.inl member)
      have siblingsSame := fun id member => restSame id (Or.inr member)
      rw [Forest.replaceTrees]
      by_cases isOwner : builder.id = owner
      · subst isOwner
        rw [if_pos (by simp [BuilderPool.hasId]),
          BuilderPool.replaceTrees_of_notMem notInSiblings]
        refine ⟨?_, stores_append.2 ⟨within.congr ?_, treeStored⟩, beside.congr ?_⟩
        · rw [Forest.rootIds_append]
          exact own _ _ _ rfl stored
        · exact fun id member =>
            childrenSame id member fun same => notInChildren (same ▸ member)
        · exact fun id member =>
            siblingsSame id member fun same => notInSiblings (same ▸ member)
      · rw [if_neg (by simp [BuilderPool.hasId, isOwner])]
        refine
          ⟨?_, childrenHypothesis within childrenNodup childrenSame,
            siblingsHypothesis beside siblingsNodup siblingsSame⟩
        rw [BuilderPool.rootIds_replaceTrees]
        · exact stored.congr (builderSame isOwner)
        · exact fun _ _ => rfl

private theorem sameNode_link
    (notOwner : id ≠ owner)
    (notChild : id ≠ child) :
    heap.SameNode (heap.link owner child) id :=
  ⟨by simp [link, modify, notOwner, notChild], Iff.rfl⟩

private theorem parent_link (notChild : id ≠ child) :
    ((heap.link owner child).node id).parent = (heap.node id).parent := by
  by_cases isOwner : id = owner
  · subst isOwner
    simp [link, modify, notChild]
  · rw [(sameNode_link isOwner notChild).1]

private theorem StoresBuilder.link_owner
    {children : List Nat}
    (stored : heap.StoresBuilder parent builder children)
    (different : builder.id ≠ child) :
    (heap.link builder.id child).StoresBuilder parent builder (children ++ [child]) := by
  obtain ⟨block, childrenEq, held, parentEq⟩ := stored
  refine ⟨by simp [link, modify, different, block], ?_, held, ?_⟩
  · rw [BuilderHeap.children] at childrenEq ⊢
    simp [link, modify, different, childrenEq]
  · intro outer isOuter
    rw [parent_link different]
    exact parentEq outer isOuter

private theorem StoresBuilder.link_child
    {children : List Nat}
    (stored : heap.StoresBuilder parent builder children)
    (different : builder.id ≠ owner) :
    (heap.link owner builder.id).StoresBuilder (some owner) builder children := by
  obtain ⟨block, childrenEq, held, _⟩ := stored
  refine ⟨by simp [link, modify, different, block], ?_, held, ?_⟩
  · rw [BuilderHeap.children] at childrenEq ⊢
    simp [link, modify, different, childrenEq]
  · rintro outer ⟨⟩
    simp [link, modify, different]

/-- A root that is added to a builder outside its tree. -/
theorem Mirrors.link
    (mirrors : heap.Mirrors forest)
    (isRoot : child ∈ forest.rootIds)
    (found : forest.find? (BuilderPool.hasId child) = some (builder, below))
    (member : owner ∈ forest.ids)
    (notBelow : owner ∉ (Forest.single builder below).ids) :
    (heap.link owner child).Mirrors
      (BuilderPool.attach owner (.single builder below)
        (forest.eraseRoot (BuilderPool.hasId child))) := by
  obtain ⟨rfl, stored, within⟩ := mirrors.stores.of_find? found
  obtain ⟨front, back, forestEq, eraseEq⟩ :=
    BuilderPool.exists_split_of_root mirrors.nodup isRoot found
  have idsPerm : forest.ids.Perm ((front ++ back).ids ++ (Forest.single builder below).ids) := by
    rw [forestEq, List.perm_iff_count]
    intro id
    simp only [Forest.ids_append, List.count_append]
    omega
  obtain ⟨restNodup, treeNodup, apart⟩ := List.nodup_append.1 (idsPerm.nodup_iff.1 mirrors.nodup)
  have ownerMember : owner ∈ (front ++ back).ids :=
    (List.mem_append.1 (idsPerm.subset member)).resolve_right notBelow
  have restStored : heap.Stores none (front ++ back) := by
    have all := mirrors.stores
    rw [forestEq, stores_append, stores_append] at all
    exact stores_append.2 ⟨all.1, all.2.2⟩
  rw [Forest.ids_single, List.nodup_cons] at treeNodup
  rw [Forest.ids_single, List.mem_cons, not_or] at notBelow
  have notChild : ∀ id ∈ (front ++ back).ids, id ≠ builder.id := fun id inRest =>
    apart id inRest builder.id (by rw [Forest.ids_single]; exact List.mem_cons_self)
  have stores :
      (heap.link owner builder.id).Stores none
        (BuilderPool.attach owner (.single builder below) (front ++ back)) := by
    refine
      restStored.attach restNodup
        (fun id inRest different => sameNode_link different (notChild id inRest)) ?_ ?_
    · rintro parent other children rfl otherStored
      exact otherStored.link_owner notBelow.1
    · refine stores_single.2 ⟨stored.link_child (Ne.symm notBelow.1), within.congr ?_⟩
      intro id isBelow
      exact
        sameNode_link (ne_of_mem_of_not_mem isBelow notBelow.2)
          (ne_of_mem_of_not_mem isBelow treeNodup.1)
  have rootsEq :
      (BuilderPool.attach owner (.single builder below) (front ++ back)).rootIds =
        (front ++ back).rootIds := by
    rw [BuilderPool.attach, BuilderPool.rootIds_replaceTrees]
    exact fun _ _ => rfl
  have rootsSubset : (front ++ back).rootIds ⊆ forest.rootIds := by
    intro id isRoot
    rw [forestEq]
    simp only [Forest.rootIds_append, List.mem_append] at isRoot ⊢
    exact isRoot.imp_right Or.inr
  rw [eraseEq]
  refine
    ⟨mirrors.toCovers.replace stores
      ((BuilderPool.ids_attach restNodup ownerMember _).trans idsPerm.symm) ?_ ?_ rfl
      mirrors.handles, ?_⟩
  · rw [rootsEq]
    exact rootsSubset
  · intro id isRoot
    rw [rootsEq] at isRoot
    exact parent_link (notChild id ((Forest.rootIds_sublist_ids _).subset isRoot))
  · intro id isRoot
    rw [rootsEq] at isRoot
    exact mirrors.rootsHeld id (rootsSubset isRoot)

end BuilderHeap

end MacroRegions

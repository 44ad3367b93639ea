import MacroRegions.Proofs.Builder.InPlace

/-!
What adding a child does to the builders around it.

The child gets a parent and the parent a last child; every other builder keeps what it
has. From this follows who lives, who is whose parent and who stands above whom
afterwards, and that changes of different builders can be made in either order.
-/

namespace MacroRegions

namespace BuilderHeap

variable {heap : BuilderHeap} {id root above below owner child : Nat} {f : Block → Block}

private theorem node_link (id : Nat) :
    (heap.link owner child).node id =
      { block := (heap.node id).block
        children :=
          if id = owner then (heap.node id).children ++ [child] else (heap.node id).children
        parent := if id = child then some owner else (heap.node id).parent } := by
  by_cases isOwner : id = owner
  · subst isOwner
    by_cases isChild : id = child
    · simp [link, modify, isChild]
    · simp [link, modify, isChild]
  · by_cases isChild : id = child
    · subst isChild
      simp [link, modify, isOwner]
    · simp [link, modify, isOwner, isChild]

private theorem node_modifyBlock (id : Nat) :
    (heap.modifyBlock root f).node id =
      if id = root then { heap.node id with block := f (heap.node id).block }
      else heap.node id := by
  by_cases isRoot : id = root
  · simp [modifyBlock, modify, isRoot]
  · simp [modifyBlock, modify, isRoot]

/-- A block can be changed before or after a child is added. -/
theorem modifyBlock_link :
    (heap.link owner child).modifyBlock id f = (heap.modifyBlock id f).link owner child := by
  have nodeEq :
      ((heap.link owner child).modifyBlock id f).node =
        ((heap.modifyBlock id f).link owner child).node := by
    funext other
    simp only [node_link, node_modifyBlock]
    split <;> rfl
  exact congrArg (fun node => BuilderHeap.mk node heap.handles heap.count) nodeEq

/-- Different children can be added to different builders in either order. -/
theorem link_link
    {owner' child' : Nat}
    (owners : owner ≠ owner')
    (children : child ≠ child') :
    (heap.link owner child).link owner' child' = (heap.link owner' child').link owner child := by
  have nodeEq :
      ((heap.link owner child).link owner' child').node =
        ((heap.link owner' child').link owner child).node := by
    funext other
    simp only [node_link]
    grind
  exact congrArg (fun node => BuilderHeap.mk node heap.handles heap.count) nodeEq

theorem lives_modifyBlock_iff : (heap.modifyBlock root f).Lives id ↔ heap.Lives id := by
  rw [← mapBlocks_singleton, lives_mapBlocks_iff]

theorem isParent_modifyBlock_iff :
    (heap.modifyBlock root f).IsParent above id ↔ heap.IsParent above id := by
  rw [IsParent, IsParent, lives_modifyBlock_iff, ← mapBlocks_singleton, parent_mapBlocks]

theorem isAncestor_modifyBlock_iff :
    (heap.modifyBlock root f).IsAncestor above id ↔ heap.IsAncestor above id := by
  have parents : (heap.modifyBlock root f).IsParent = heap.IsParent := by
    funext above id
    exact propext isParent_modifyBlock_iff
  rw [IsAncestor, IsAncestor, parents]

/-- Nothing comes to life or dies when a child is added. -/
theorem lives_link_iff (childLives : heap.Lives child) :
    (heap.link owner child).Lives id ↔ heap.Lives id := by
  constructor
  · intro lives
    induction lives with
    | handle held => exact .handle held
    | @child parent id _ member parentLives =>
        rw [BuilderHeap.children, node_link] at member
        by_cases isOwner : parent = owner
        · rw [if_pos isOwner] at member
          rcases List.mem_append.1 member with isOld | isNew
          · exact .child parentLives isOld
          · rwa [List.mem_singleton.1 isNew]
        · rw [if_neg isOwner] at member
          exact .child parentLives member
  · intro lives
    induction lives with
    | handle held => exact .handle held
    | @child parent id _ member parentLives =>
        apply Lives.child parentLives
        rw [BuilderHeap.children, node_link]
        by_cases isOwner : parent = owner
        · rw [if_pos isOwner]
          exact List.mem_append_left _ member
        · rwa [if_neg isOwner]

theorem isParent_link_of_ne
    (childLives : heap.Lives child)
    (different : id ≠ child) :
    (heap.link owner child).IsParent above id ↔ heap.IsParent above id := by
  rw [IsParent, IsParent, node_link, lives_link_iff childLives, if_neg different]

private theorem isParent_link_child
    (ownerLives : heap.Lives owner)
    (childLives : heap.Lives child) :
    (heap.link owner child).IsParent above child ↔ above = owner := by
  rw [IsParent, node_link, lives_link_iff childLives, if_pos rfl, Option.some.injEq]
  constructor
  · intro both
    exact both.1.symm
  · intro same
    subst same
    exact ⟨rfl, ownerLives⟩

/-- A builder is another one or stands below it. -/
def IsWithin (heap : BuilderHeap) (root id : Nat) : Prop :=
  id = root ∨ heap.IsAncestor root id

theorem isWithin_self (heap : BuilderHeap) (id : Nat) : heap.IsWithin id id :=
  Or.inl rfl

private theorem IsWithin.isAncestor_of_isParent
    (within : heap.IsWithin root above)
    (isParent : heap.IsParent above id) :
    heap.IsAncestor root id := by
  rcases within with same | isAbove
  · subst same
    exact .single isParent
  · exact isAbove.tail isParent

/-- When a child is added that had no parent, its new parent and all above come to
stand above it and all below. Nothing else changes. -/
theorem isAncestor_link_iff
    (ownerLives : heap.Lives owner)
    (childLives : heap.Lives child)
    (alone : ∀ other, ¬ heap.IsParent other child) :
    (heap.link owner child).IsAncestor above id ↔
      heap.IsAncestor above id ∨ heap.IsWithin child id ∧ heap.IsWithin above owner := by
  have kept : ∀ {outer inner : Nat}, heap.IsAncestor outer inner →
      (heap.link owner child).IsAncestor outer inner := by
    intro outer inner isAbove
    refine Relation.TransGen.mono ?_ outer inner isAbove
    intro upper lower isParent
    have different : lower ≠ child := fun same => alone upper (same ▸ isParent)
    exact (isParent_link_of_ne childLives different).2 isParent
  constructor
  · intro isAbove
    induction isAbove with
    | @single lower isParent =>
        by_cases isChild : lower = child
        · subst isChild
          rw [isParent_link_child ownerLives childLives] at isParent
          exact Or.inr ⟨isWithin_self _ _, Or.inl isParent.symm⟩
        · exact Or.inl (.single ((isParent_link_of_ne childLives isChild).1 isParent))
    | @tail upper lower _ isParent inductionHypothesis =>
        by_cases isChild : lower = child
        · subst isChild
          rw [isParent_link_child ownerLives childLives] at isParent
          subst isParent
          refine Or.inr ⟨isWithin_self _ _, ?_⟩
          rcases inductionHypothesis with isAbove | joined
          · exact Or.inr isAbove
          · exact joined.2
        · rw [isParent_link_of_ne childLives isChild] at isParent
          rcases inductionHypothesis with isAbove | joined
          · exact Or.inl (isAbove.tail isParent)
          · exact Or.inr ⟨Or.inr (joined.1.isAncestor_of_isParent isParent), joined.2⟩
  · intro cases
    rcases cases with isAbove | ⟨belowChild, aboveOwner⟩
    · exact kept isAbove
    · have childIsBelow : (heap.link owner child).IsAncestor above child := by
        have isParent := (isParent_link_child ownerLives childLives).2 rfl
        rcases aboveOwner with same | isAbove
        · subst same
          exact .single isParent
        · exact (kept isAbove).tail isParent
      rcases belowChild with same | isBelow
      · rwa [same]
      · exact childIsBelow.trans (kept isBelow)

theorem isWithin_link_iff
    (ownerLives : heap.Lives owner)
    (childLives : heap.Lives child)
    (alone : ∀ other, ¬ heap.IsParent other child) :
    (heap.link owner child).IsWithin above id ↔
      heap.IsWithin above id ∨ heap.IsWithin child id ∧ heap.IsWithin above owner := by
  rw [IsWithin, IsWithin, isAncestor_link_iff ownerLives childLives alone, or_assoc]

end BuilderHeap

end MacroRegions

import MacroRegions.Proofs.Builder.Heap
import MacroRegions.Proofs.Builder.Ids

/-!
How nodes store a forest of builders.

A forest is stored when the node of each builder in it has its block, its children and
its parent. What lives in a heap is then just what is in the forest, and looking at
either comes to the same.
-/

namespace MacroRegions

namespace BuilderHeap

/-- The node of a builder below `parent`, if there is one above it. -/
structure StoresBuilder
    (heap : BuilderHeap)
    (parent : Option Nat)
    (builder : Builder)
    (children : List Nat) : Prop where
  block : (heap.node builder.id).block = builder.block
  children : heap.children builder.id = children
  held : builder.held = true ↔ 0 < heap.handles builder.id
  parent : ∀ owner ∈ parent, (heap.node builder.id).parent = some owner

def Stores (heap : BuilderHeap) (parent : Option Nat) : Forest Builder → Prop
  | .nil => True
  | .node builder children siblings =>
    heap.StoresBuilder parent builder children.rootIds ∧
      Stores heap (some builder.id) children ∧
      Stores heap parent siblings

variable {heap heap' : BuilderHeap} {parent : Option Nat} {id owner : Nat}
  {forest left right below : Forest Builder} {builder : Builder}

@[simp]
theorem stores_append :
    heap.Stores parent (left ++ right) ↔ heap.Stores parent left ∧ heap.Stores parent right := by
  induction left with
  | nil => simp [Stores]
  | node builder children siblings _ inductionHypothesis =>
      simp [Stores, inductionHypothesis, and_assoc]

@[simp]
theorem stores_single :
    heap.Stores parent (.single builder below) ↔
      heap.StoresBuilder parent builder below.rootIds ∧ heap.Stores (some builder.id) below := by
  simp [Forest.single, Stores]

theorem StoresBuilder.of_none
    {children : List Nat}
    (stored : heap.StoresBuilder parent builder children) :
    heap.StoresBuilder none builder children :=
  ⟨stored.block, stored.children, stored.held, by simp⟩

theorem Stores.of_none (stores : heap.Stores parent forest) : heap.Stores none forest := by
  induction forest with
  | nil => trivial
  | node builder children siblings _ siblingsHypothesis =>
      obtain ⟨stored, within, beside⟩ := stores
      exact ⟨stored.of_none, within, siblingsHypothesis beside⟩

def SameNode (heap heap' : BuilderHeap) (id : Nat) : Prop :=
  heap'.node id = heap.node id ∧ (0 < heap'.handles id ↔ 0 < heap.handles id)

theorem StoresBuilder.congr
    {children : List Nat}
    (stored : heap.StoresBuilder parent builder children)
    (same : heap.SameNode heap' builder.id) :
    heap'.StoresBuilder parent builder children where
  block := by rw [same.1, stored.block]
  children := by rw [BuilderHeap.children, same.1, ← stored.children, BuilderHeap.children]
  held := stored.held.trans same.2.symm
  parent := fun owner isOwner => by rw [same.1, stored.parent owner isOwner]

/-- A forest is stored by nodes of its own builders alone. -/
theorem Stores.congr
    (stores : heap.Stores parent forest)
    (same : ∀ id ∈ forest.ids, heap.SameNode heap' id) :
    heap'.Stores parent forest := by
  induction forest generalizing parent with
  | nil => trivial
  | node builder children siblings childrenHypothesis siblingsHypothesis =>
      obtain ⟨stored, within, beside⟩ := stores
      rw [Forest.ids_node] at same
      refine ⟨stored.congr (same _ List.mem_cons_self), ?_, ?_⟩
      · exact
          childrenHypothesis within fun id member =>
            same id (List.mem_cons_of_mem _ (List.mem_append_left _ member))
      · exact
          siblingsHypothesis beside fun id member =>
            same id (List.mem_cons_of_mem _ (List.mem_append_right _ member))

theorem Stores.of_mem_trees
    {tree : Builder × Forest Builder}
    (stores : heap.Stores parent forest)
    (member : tree ∈ forest.trees) :
    heap.StoresBuilder parent tree.1 tree.2.rootIds := by
  induction forest with
  | nil => simp [Forest.trees] at member
  | node builder children siblings _ siblingsHypothesis =>
      obtain ⟨stored, _, beside⟩ := stores
      rcases List.mem_cons.1 member with rfl | later
      · exact stored
      · exact siblingsHypothesis beside later

theorem Stores.of_mem
    (stores : heap.Stores parent forest)
    (member : builder ∈ forest.toList) :
    ∃ children, heap.StoresBuilder none builder children := by
  induction forest generalizing parent with
  | nil => simp [Forest.toList] at member
  | node root children siblings childrenHypothesis siblingsHypothesis =>
      obtain ⟨stored, within, beside⟩ := stores
      simp only [Forest.toList, List.mem_cons, List.mem_append] at member
      rcases member with rfl | inChildren | inSiblings
      · exact ⟨_, stored.of_none⟩
      · exact childrenHypothesis within inChildren
      · exact siblingsHypothesis beside inSiblings

theorem Stores.of_mem_rootIds
    (stores : heap.Stores (some owner) forest)
    (member : id ∈ forest.rootIds) :
    (heap.node id).parent = some owner := by
  obtain ⟨tree, treeMember, rfl⟩ := List.mem_map.1 member
  exact (stores.of_mem_trees treeMember).parent owner rfl

/-- A tree that is found is stored. -/
theorem Stores.of_find?
    (stores : heap.Stores parent forest)
    (found : forest.find? (BuilderPool.hasId id) = some (builder, below)) :
    builder.id = id ∧
      heap.StoresBuilder none builder below.rootIds ∧
      heap.Stores (some id) below := by
  induction forest generalizing parent with
  | nil => simp [Forest.find?] at found
  | node root children siblings childrenHypothesis siblingsHypothesis =>
      obtain ⟨stored, within, beside⟩ := stores
      rw [Forest.find?] at found
      split at found
      · next own =>
          obtain ⟨rfl, rfl⟩ := Prod.mk.inj (Option.some.inj found)
          obtain rfl : root.id = id := by simpa [BuilderPool.hasId] using own
          exact ⟨rfl, stored.of_none, within⟩
      · rcases Option.or_eq_some_iff.1 found with inChildren | ⟨_, inSiblings⟩
        · exact childrenHypothesis within inChildren
        · exact siblingsHypothesis beside inSiblings

theorem Stores.exists_find?
    (stores : heap.Stores parent forest)
    (member : id ∈ forest.ids) :
    ∃ builder below,
      forest.find? (BuilderPool.hasId id) = some (builder, below) ∧
        builder.id = id ∧
        heap.StoresBuilder none builder below.rootIds ∧
        heap.Stores (some id) below ∧
        (Forest.single builder below).ids.Sublist forest.ids := by
  obtain ⟨⟨builder, below⟩, found⟩ := BuilderPool.exists_find?_iff.2 member
  obtain ⟨idEq, stored, within⟩ := stores.of_find? found
  exact ⟨builder, below, found, idEq, stored, within, BuilderPool.ids_sublist_of_find? found⟩

/-- The children of a builder of a forest are in the forest. -/
theorem Stores.child_mem
    (stores : heap.Stores parent forest)
    (member : owner ∈ forest.ids)
    (isChild : id ∈ heap.children owner) :
    id ∈ forest.ids := by
  obtain ⟨builder, below, _, rfl, stored, _, sublist⟩ := stores.exists_find? member
  rw [stored.children] at isChild
  refine sublist.subset ?_
  rw [Forest.ids_single]
  exact List.mem_cons_of_mem _ ((Forest.rootIds_sublist_ids below).subset isChild)

/-- The parent of a builder in a forest is stored as its parent, with the builder
among its children. -/
theorem Stores.of_parent?
    (stores : heap.Stores parent forest)
    (isParent : forest.parent? (BuilderPool.hasId id) = some builder) :
    (heap.node id).parent = some builder.id ∧
      builder.id ∈ forest.ids ∧
      id ∈ heap.children builder.id := by
  induction forest generalizing parent with
  | nil => simp [Forest.parent?] at isParent
  | node root children siblings childrenHypothesis siblingsHypothesis =>
      obtain ⟨stored, within, beside⟩ := stores
      rw [Forest.parent?] at isParent
      simp only [Forest.ids_node, List.mem_cons, List.mem_append]
      split at isParent
      · next isRoot =>
          obtain rfl := Option.some.inj isParent
          have member := BuilderPool.hasRoot_iff.1 isRoot
          exact ⟨within.of_mem_rootIds member, Or.inl rfl, stored.children.symm ▸ member⟩
      · rcases Option.or_eq_some_iff.1 isParent with inChildren | ⟨_, inSiblings⟩
        · obtain ⟨parentEq, member, isChild⟩ := childrenHypothesis within inChildren
          exact ⟨parentEq, Or.inr (Or.inl member), isChild⟩
        · obtain ⟨parentEq, member, isChild⟩ := siblingsHypothesis beside inSiblings
          exact ⟨parentEq, Or.inr (Or.inr member), isChild⟩

/-- A heap stores a forest, and there are handles on no other builders. A root
may have had a parent, but has none in the forest. -/
structure Covers (heap : BuilderHeap) (forest : Forest Builder) : Prop where
  stores : heap.Stores none forest
  nodup : forest.ids.Nodup
  fresh : ∀ id ∈ forest.ids, id < heap.count
  handles : ∀ id, 0 < heap.handles id → id ∈ forest.ids
  apart : ∀ id ∈ forest.rootIds, ∀ owner,
    (heap.node id).parent = some owner → owner ∉ forest.ids
  bounded : ∀ id ∈ forest.rootIds, ∀ owner,
    (heap.node id).parent = some owner → owner < heap.count

/-- A heap stores a forest of builders that live: there are handles on all roots. -/
structure Mirrors (heap : BuilderHeap) (forest : Forest Builder) : Prop
    extends heap.Covers forest where
  rootsHeld : ∀ id ∈ forest.rootIds, 0 < heap.handles id

theorem Stores.lives
    (stores : heap.Stores parent forest)
    (rootsLive : ∀ id ∈ forest.rootIds, heap.Lives id)
    (member : id ∈ forest.ids) :
    heap.Lives id := by
  induction forest generalizing parent with
  | nil => simp at member
  | node builder children siblings childrenHypothesis siblingsHypothesis =>
      obtain ⟨stored, within, beside⟩ := stores
      rw [Forest.rootIds_node] at rootsLive
      have builderLives := rootsLive builder.id List.mem_cons_self
      simp only [Forest.ids_node, List.mem_cons, List.mem_append] at member
      rcases member with rfl | inChildren | inSiblings
      · exact builderLives
      · refine childrenHypothesis within (fun child isRoot => ?_) inChildren
        exact .child builderLives (by rwa [stored.children])
      · exact
          siblingsHypothesis beside
            (fun sibling isRoot => rootsLive sibling (List.mem_cons_of_mem _ isRoot)) inSiblings

namespace Mirrors

variable (mirrors : heap.Mirrors forest)

include mirrors

/-- What lives is what is in the forest. -/
theorem lives_iff : heap.Lives id ↔ id ∈ forest.ids := by
  constructor
  · intro lives
    induction lives with
    | handle held => exact mirrors.handles _ held
    | child _ isChild ownerMember => exact mirrors.stores.child_mem ownerMember isChild
  · exact mirrors.stores.lives fun root isRoot => .handle (mirrors.rootsHeld root isRoot)

/-- The parent of a builder that lives is what the forest says. -/
theorem parent?_eq_some_iff (lives : heap.Lives id) :
    (forest.parent? (BuilderPool.hasId id)).map Builder.id = some owner ↔
      heap.IsParent owner id := by
  rw [Option.map_eq_some_iff]
  constructor
  · rintro ⟨builder, isParent, rfl⟩
    obtain ⟨parentEq, member, _⟩ := mirrors.stores.of_parent? isParent
    exact ⟨parentEq, mirrors.lives_iff.2 member⟩
  · rintro ⟨parentEq, ownerLives⟩
    rcases BuilderPool.isRoot_or_exists_parent? (mirrors.lives_iff.1 lives) with
      isRoot | ⟨builder, isParent⟩
    · exact absurd (mirrors.lives_iff.1 ownerLives) (mirrors.apart id isRoot owner parentEq)
    · obtain ⟨parentEq', _, _⟩ := mirrors.stores.of_parent? isParent
      exact ⟨builder, isParent, Option.some.inj (parentEq'.symm.trans parentEq)⟩

/-- A builder that lives is a child exactly of its parent. -/
theorem isParent_iff (lives : heap.Lives id) :
    heap.IsParent owner id ↔ heap.Lives owner ∧ id ∈ heap.children owner := by
  constructor
  · intro isParent
    obtain ⟨builder, found, rfl⟩ :=
      Option.map_eq_some_iff.1 ((mirrors.parent?_eq_some_iff lives).2 isParent)
    exact ⟨isParent.2, (mirrors.stores.of_parent? found).2.2⟩
  · rintro ⟨ownerLives, isChild⟩
    obtain ⟨builder, below, _, rfl, stored, within, _⟩ :=
      mirrors.stores.exists_find? (mirrors.lives_iff.1 ownerLives)
    rw [stored.children] at isChild
    exact ⟨within.of_mem_rootIds isChild, ownerLives⟩

end Mirrors

end BuilderHeap

end MacroRegions

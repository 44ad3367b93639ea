import MacroRegions.Proofs.Builder.Storage

/-!
Builders that live form a forest.

A heap that mirrors a forest has no builder twice among the children of others and
none above itself, so walks over it come to an end. In particular the walk upwards
from a new parent does, which decides whether a child can be added.
-/

namespace MacroRegions

private theorem not_rel_self_of_acc
    {α : Type}
    {r : α → α → Prop}
    {a : α}
    (ends : Acc r a) :
    ¬ r a a := by
  induction ends with
  | intro a _ inductionHypothesis => exact fun self => inductionHypothesis a self self

namespace BuilderHeap

/-- A builder stands above another one: it is its parent, or the parent of one
that does. -/
def IsAncestor (heap : BuilderHeap) : Nat → Nat → Prop :=
  Relation.TransGen heap.IsParent

/-- The builders that live form a forest. -/
structure IsForest (heap : BuilderHeap) : Prop where
  once : ∀ owners : List Nat, owners.Nodup → (∀ owner ∈ owners, heap.Lives owner) →
    (owners.flatMap heap.children).Nodup
  isParent_iff : ∀ owner id, heap.Lives id →
    (heap.IsParent owner id ↔ heap.Lives owner ∧ id ∈ heap.children owner)
  acyclic : ∀ id, ¬ heap.IsAncestor id id
  builds : ∀ id, heap.Lives id → ∃ tree, heap.Builds [id] tree
  updates : ∀ id options, heap.Lives id → ∃ heap', Updates options heap [id] heap'

variable {heap heap' : BuilderHeap} {parent : Option Nat} {id owner child : Nat}
  {forest below : Forest Builder} {builder : Builder}

theorem Stores.builds (stores : heap.Stores parent forest) :
    heap.Builds forest.rootIds (forest.map (·.block)) := by
  induction forest generalizing parent with
  | nil => exact .nil
  | node builder children siblings childrenHypothesis siblingsHypothesis =>
      obtain ⟨stored, within, beside⟩ := stores
      rw [Forest.rootIds_node, Forest.map, ← stored.block]
      refine .cons ?_ (siblingsHypothesis beside)
      rw [stored.children]
      exact childrenHypothesis within

theorem Builds.unique
    {ids : List Nat}
    {tree tree' : BlockForest}
    (builds : heap.Builds ids tree)
    (builds' : heap.Builds ids tree') :
    tree = tree' := by
  induction builds generalizing tree' with
  | nil =>
      cases builds'
      rfl
  | cons _ _ childrenHypothesis othersHypothesis =>
      cases builds' with
      | cons children others => rw [childrenHypothesis children, othersHypothesis others]

/-- What is built has no end to go down to but its leaves. -/
theorem Builds.acc
    {ids : List Nat}
    {tree : BlockForest}
    (builds : heap.Builds ids tree)
    (member : id ∈ ids) :
    Acc (fun inner outer => inner ∈ heap.children outer) id := by
  induction builds generalizing id with
  | nil => simp at member
  | cons _ _ childrenHypothesis othersHypothesis =>
      rcases List.mem_cons.1 member with rfl | later
      · exact .intro _ fun inner isChild => childrenHypothesis isChild
      · exact othersHypothesis later

def mapBlocks (heap : BuilderHeap) (f : Block → Block) (ids : List Nat) : BuilderHeap :=
  { heap with
    node := fun id =>
      if id ∈ ids then { heap.node id with block := f (heap.node id).block } else heap.node id }

theorem mapBlocks_nil (f : Block → Block) : heap.mapBlocks f [] = heap := by
  simp [mapBlocks]

theorem mapBlocks_append
    (f : Block → Block)
    {ids ids' : List Nat}
    (apart : ∀ id ∈ ids, id ∉ ids') :
    (heap.mapBlocks f ids).mapBlocks f ids' = heap.mapBlocks f (ids ++ ids') := by
  simp only [mapBlocks, BuilderHeap.mk.injEq, and_self, and_true]
  funext id
  by_cases inFirst : id ∈ ids
  · simp [inFirst, apart id inFirst]
  · simp [inFirst]

theorem mapBlocks_singleton (f : Block → Block) (id : Nat) :
    heap.mapBlocks f [id] = heap.modifyBlock id f := by
  simp only [mapBlocks, modifyBlock, modify, BuilderHeap.mk.injEq, and_self, and_true]
  funext other
  by_cases own : other = id
  · subst own
    simp
  · simp [own]

@[simp]
theorem children_mapBlocks (f : Block → Block) (ids : List Nat) (id : Nat) :
    (heap.mapBlocks f ids).children id = heap.children id := by
  simp only [children, mapBlocks]
  split <;> rfl

/-- An update of a forest retags all its builders, each once. -/
theorem Stores.updates
    (stores : heap.Stores parent forest)
    (nodup : forest.ids.Nodup)
    (options : UpdateOptions)
    (updated : List Nat)
    (fresh : ∀ id ∈ updated, id ∉ forest.ids) :
    Updates options (heap.mapBlocks (retag options) updated) forest.rootIds
      (heap.mapBlocks (retag options) (updated ++ forest.ids)) := by
  induction forest generalizing parent updated with
  | nil =>
      rw [Forest.ids_nil, List.append_nil]
      exact .nil
  | node builder children siblings childrenHypothesis siblingsHypothesis =>
      obtain ⟨stored, within, beside⟩ := stores
      simp only [Forest.ids_node, List.nodup_cons, List.mem_append, not_or, List.nodup_append,
        List.mem_cons] at nodup fresh
      obtain ⟨⟨notInChildren, notInSiblings⟩, childrenNodup, siblingsNodup, apart⟩ := nodup
      have ownEq :
          (heap.mapBlocks (retag options) updated).modifyBlock builder.id (retag options) =
            heap.mapBlocks (retag options) (updated ++ [builder.id]) := by
        rw [← mapBlocks_singleton, mapBlocks_append]
        intro id member
        simpa using (fresh id member).1
      have allEq :
          updated ++ (Forest.node builder children siblings).ids =
            updated ++ [builder.id] ++ children.ids ++ siblings.ids := by
        simp
      rw [Forest.rootIds_node, allEq]
      have childrenUpdate :
          Updates options
            ((heap.mapBlocks (retag options) updated).modifyBlock builder.id (retag options))
            ((heap.mapBlocks (retag options) updated).children builder.id)
            (heap.mapBlocks (retag options) (updated ++ [builder.id] ++ children.ids)) := by
        rw [ownEq, children_mapBlocks, stored.children]
        refine childrenHypothesis within childrenNodup _ ?_
        intro id member
        rcases List.mem_append.1 member with earlier | own
        · exact (fresh id earlier).2.1
        · rwa [List.mem_singleton.1 own]
      refine .cons childrenUpdate (siblingsHypothesis beside siblingsNodup _ ?_)
      intro id member
      simp only [List.mem_append, List.mem_singleton] at member
      rcases member with (earlier | rfl) | inChildren
      · exact (fresh id earlier).2.2
      · exact notInSiblings
      · exact fun inSiblings => apart id inChildren id inSiblings rfl

/-- An update of one builder retags it and everything below it. -/
theorem Stores.updates_single
    (stores : heap.Stores parent (.single builder below))
    (nodup : (Forest.single builder below).ids.Nodup)
    (options : UpdateOptions) :
    Updates options heap [builder.id]
      (heap.mapBlocks (retag options) (Forest.single builder below).ids) := by
  have updates := stores.updates nodup options [] (by simp)
  rwa [mapBlocks_nil, Forest.rootIds_single, List.nil_append] at updates

theorem Updates.unique
    {options : UpdateOptions}
    {ids : List Nat}
    {first second : BuilderHeap}
    (updates : Updates options heap ids first)
    (updates' : Updates options heap ids second) :
    first = second := by
  induction updates generalizing second with
  | nil =>
      cases updates'
      rfl
  | cons _ _ childrenHypothesis othersHypothesis =>
      cases updates' with
      | cons children others =>
          obtain rfl := childrenHypothesis children
          exact othersHypothesis others

/-! ## Walks upwards -/

/-- Whether the walk upwards from a builder meets another one. -/
theorem Climbs.met_iff
    {current : Nat}
    {met : Bool}
    (climbs : heap.Climbs child current met) :
    met = true ↔ current = child ∨ heap.IsAncestor child current := by
  induction climbs with
  | found => simp
  | further different isParent _ inductionHypothesis =>
      rw [inductionHypothesis]
      constructor
      · rintro (rfl | above)
        · exact Or.inr (.single isParent)
        · exact Or.inr (.tail above isParent)
      · rintro (same | above)
        · exact absurd same different
        · obtain ⟨last, reaches, isParent'⟩ := Relation.TransGen.tail'_iff.1 above
          obtain rfl := Option.some.inj (isParent.1.symm.trans isParent'.1)
          exact (Relation.reflTransGen_iff_eq_or_transGen.1 reaches).imp_left id
  | top different alone =>
      refine iff_of_false (by simp) ?_
      rintro (same | above)
      · exact different same
      · obtain ⟨last, _, isParent⟩ := Relation.TransGen.tail'_iff.1 above
        exact alone last isParent

/-- From everything below builders from which the walk upwards comes to an end,
it comes to an end too. -/
theorem Stores.exists_climbs
    (stores : heap.Stores parent forest)
    (live : ∀ id ∈ forest.ids, heap.Lives id)
    (ends : ∀ owner ∈ parent, heap.Lives owner ∧ ∃ met, heap.Climbs child owner met)
    (alone : parent = none → ∀ id ∈ forest.rootIds, ∀ next, ¬ heap.IsParent next id)
    (member : id ∈ forest.ids) :
    ∃ met, heap.Climbs child id met := by
  induction forest generalizing parent with
  | nil => simp at member
  | node builder children siblings childrenHypothesis siblingsHypothesis =>
      obtain ⟨stored, within, beside⟩ := stores
      simp only [Forest.ids_node, List.mem_cons, List.mem_append, forall_eq_or_imp] at live member
      have builderEnds : ∃ met, heap.Climbs child builder.id met := by
        by_cases own : builder.id = child
        · rw [own]
          exact ⟨true, .found⟩
        · cases parentEq : parent with
          | none => exact ⟨false, .top own (alone parentEq _ List.mem_cons_self)⟩
          | some owner =>
              obtain ⟨ownerLives, met, climbs⟩ := ends owner parentEq
              exact ⟨met, .further own ⟨stored.parent owner parentEq, ownerLives⟩ climbs⟩
      rcases member with rfl | inChildren | inSiblings
      · exact builderEnds
      · refine
          childrenHypothesis within (fun id inside => live.2 id (Or.inl inside)) ?_ (by simp)
            inChildren
        rintro owner ⟨⟩
        exact ⟨live.1, builderEnds⟩
      · exact
          siblingsHypothesis beside (fun id inside => live.2 id (Or.inr inside)) ends
            (fun isNone id isRoot => alone isNone id (List.mem_cons_of_mem _ isRoot)) inSiblings

private theorem Stores.isAncestor
    (stores : heap.Stores (some owner) forest)
    (ownerLives : heap.Lives owner)
    (live : ∀ id ∈ forest.ids, heap.Lives id)
    (member : id ∈ forest.ids) :
    heap.IsAncestor owner id := by
  induction forest generalizing owner with
  | nil => simp at member
  | node builder children siblings childrenHypothesis siblingsHypothesis =>
      obtain ⟨stored, within, beside⟩ := stores
      simp only [Forest.ids_node, List.mem_cons, List.mem_append, forall_eq_or_imp] at live member
      have isParent : heap.IsParent owner builder.id := ⟨stored.parent owner rfl, ownerLives⟩
      rcases member with rfl | inChildren | inSiblings
      · exact .single isParent
      · exact
          .head isParent
            (childrenHypothesis within live.1 (fun id inside => live.2 id (Or.inl inside))
              inChildren)
      · exact
          siblingsHypothesis beside ownerLives (fun id inside => live.2 id (Or.inr inside))
            inSiblings

namespace Mirrors

variable (mirrors : heap.Mirrors forest)

include mirrors

theorem live (member : id ∈ forest.ids) : heap.Lives id :=
  mirrors.lives_iff.2 member

/-- The ids below a builder are those of the builders that it stands above. -/
theorem mem_ids_iff_isAncestor
    (found : forest.find? (BuilderPool.hasId child) = some (builder, below))
    (lives : heap.Lives id) :
    id ∈ (Forest.single builder below).ids ↔ id = child ∨ heap.IsAncestor child id := by
  obtain ⟨rfl, stored, within⟩ := mirrors.stores.of_find? found
  have sublist := BuilderPool.ids_sublist_of_find? found
  have childLives : heap.Lives builder.id :=
    mirrors.live (sublist.subset (by rw [Forest.ids_single]; exact List.mem_cons_self))
  have treeStored : heap.Stores none (.single builder below) := stores_single.2 ⟨stored, within⟩
  constructor
  · intro member
    rw [Forest.ids_single] at member sublist
    refine (List.mem_cons.1 member).imp_right fun isBelow => ?_
    exact
      within.isAncestor childLives
        (fun id inside => mirrors.live (sublist.subset (List.mem_cons_of_mem _ inside))) isBelow
  · rintro (rfl | above)
    · rw [Forest.ids_single]
      exact List.mem_cons_self
    · induction above with
      | single isParent =>
          refine treeStored.child_mem ?_ ((mirrors.isParent_iff lives).1 isParent).2
          rw [Forest.ids_single]
          exact List.mem_cons_self
      | tail _ isParent inductionHypothesis =>
          exact
            treeStored.child_mem (inductionHypothesis isParent.2)
              ((mirrors.isParent_iff lives).1 isParent).2

private theorem not_isParent_of_isRoot (isRoot : id ∈ forest.rootIds) :
    ¬ heap.IsParent owner id := by
  rintro ⟨parentEq, ownerLives⟩
  exact mirrors.apart id isRoot owner parentEq (mirrors.lives_iff.1 ownerLives)

theorem exists_climbs (child : Nat) (lives : heap.Lives id) : ∃ met, heap.Climbs child id met :=
  mirrors.stores.exists_climbs (fun _ member => mirrors.live member) (by simp)
    (fun _ _ isRoot _ => mirrors.not_isParent_of_isRoot isRoot) (mirrors.lives_iff.1 lives)

theorem exists_tree (lives : heap.Lives id) :
    ∃ builder below,
      forest.find? (BuilderPool.hasId id) = some (builder, below) ∧
        builder.id = id ∧
        heap.Stores none (.single builder below) ∧
        (Forest.single builder below).ids.Nodup := by
  obtain ⟨builder, below, found, rfl, stored, within, sublist⟩ :=
    mirrors.stores.exists_find? (mirrors.lives_iff.1 lives)
  exact
    ⟨builder, below, found, rfl, stores_single.2 ⟨stored, within⟩, mirrors.nodup.sublist sublist⟩

/-- A builder is built as the forest says. -/
theorem builds
    (found : forest.find? (BuilderPool.hasId id) = some (builder, below)) :
    heap.Builds [id] (.single builder.block (below.map (·.block))) := by
  obtain ⟨rfl, stored, within⟩ := mirrors.stores.of_find? found
  exact (stores_single.2 ⟨stored, within⟩).builds

private theorem nodup_children (lives : heap.Lives id) : (heap.children id).Nodup := by
  obtain ⟨builder, below, _, rfl, stored, treeNodup⟩ := mirrors.exists_tree lives
  rw [(stores_single.1 stored).1.children]
  rw [Forest.ids_single] at treeNodup
  exact treeNodup.of_cons.sublist (Forest.rootIds_sublist_ids below)

private theorem nodup_flatMap_children
    {owners : List Nat}
    (nodup : owners.Nodup)
    (live : ∀ owner ∈ owners, heap.Lives owner) :
    (owners.flatMap heap.children).Nodup := by
  refine List.nodup_flatMap.2 ⟨fun owner member => mirrors.nodup_children (live owner member), ?_⟩
  refine nodup.imp_of_mem ?_
  intro first second firstMember secondMember different id inFirst inSecond
  have lives : heap.Lives id := .child (live first firstMember) inFirst
  have isParent := (mirrors.isParent_iff lives).2 ⟨live first firstMember, inFirst⟩
  have isParent' := (mirrors.isParent_iff lives).2 ⟨live second secondMember, inSecond⟩
  exact different (Option.some.inj (isParent.1.symm.trans isParent'.1))

private theorem transGen_of_isAncestor
    (above : heap.IsAncestor owner id)
    (lives : heap.Lives id) :
    Relation.TransGen (fun inner outer => inner ∈ heap.children outer) id owner := by
  induction above with
  | single isParent => exact .single ((mirrors.isParent_iff lives).1 isParent).2
  | tail _ isParent inductionHypothesis =>
      exact
        .head ((mirrors.isParent_iff lives).1 isParent).2 (inductionHypothesis isParent.2)

/-- No builder stands above itself: what is built from it would have no end. -/
theorem not_isAncestor_self (id : Nat) : ¬ heap.IsAncestor id id := by
  intro above
  obtain ⟨next, isParent, _⟩ := Relation.TransGen.head'_iff.1 above
  have lives : heap.Lives id := isParent.2
  obtain ⟨builder, below, found, _⟩ := mirrors.exists_tree lives
  have ends := ((mirrors.builds found).acc List.mem_cons_self).transGen
  exact not_rel_self_of_acc ends (mirrors.transGen_of_isAncestor above lives)

/-- The builders that live form a forest. -/
theorem isForest : heap.IsForest where
  once := fun _ => mirrors.nodup_flatMap_children
  isParent_iff := fun _ _ => mirrors.isParent_iff
  acyclic := mirrors.not_isAncestor_self
  builds := by
    intro id lives
    obtain ⟨builder, below, found, _⟩ := mirrors.exists_tree lives
    exact ⟨_, mirrors.builds found⟩
  updates := by
    intro id options lives
    obtain ⟨builder, below, _, rfl, stored, treeNodup⟩ := mirrors.exists_tree lives
    exact ⟨_, stored.updates_single treeNodup options⟩

/-- What comes of adding a child. -/
theorem addsChild_iff
    {result : Except Failure BuilderHeap}
    (ownerLives : heap.Lives owner) :
    heap.AddsChild owner child result ↔
      (∃ other, heap.IsParent other child) ∧ result = .error .builderAlreadyAttached ∨
        (∀ other, ¬ heap.IsParent other child) ∧
          (owner = child ∨ heap.IsAncestor child owner) ∧ result = .error .builderCycle ∨
        (∀ other, ¬ heap.IsParent other child) ∧
          ¬ (owner = child ∨ heap.IsAncestor child owner) ∧
          result = .ok (heap.link owner child) := by
  constructor
  · intro adds
    cases adds with
    | attached isParent => exact Or.inl ⟨⟨_, isParent⟩, rfl⟩
    | cycle alone climbs => exact Or.inr (Or.inl ⟨alone, climbs.met_iff.1 rfl, rfl⟩)
    | added alone climbs =>
        refine Or.inr (Or.inr ⟨alone, ?_, rfl⟩)
        rw [← climbs.met_iff]
        exact Bool.false_ne_true
  · rintro (⟨⟨other, isParent⟩, rfl⟩ | ⟨alone, above, rfl⟩ | ⟨alone, notAbove, rfl⟩)
    · exact .attached isParent
    · obtain ⟨met, climbs⟩ := mirrors.exists_climbs child ownerLives
      obtain rfl := climbs.met_iff.2 above
      exact .cycle alone climbs
    · obtain ⟨met, climbs⟩ := mirrors.exists_climbs child ownerLives
      rw [← climbs.met_iff, Bool.not_eq_true] at notAbove
      subst notAbove
      exact .added alone climbs

end Mirrors

end BuilderHeap

end MacroRegions

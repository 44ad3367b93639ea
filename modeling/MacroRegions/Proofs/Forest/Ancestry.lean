import Mathlib.Data.List.Nodup
import MacroRegions.Forest.Basic

/-!
What stands above what in a forest.

The parent of a value is the nearest of all values above it, if no value occurs twice.
What holds of every value and the values above it holds of every path.
-/

namespace MacroRegions

namespace Forest

variable {α : Type}

def IsBelow (inner outer : α) : Forest α → Prop
  | nil => False
  | node value children siblings =>
    outer = value ∧ inner ∈ children.toList ∨
      IsBelow inner outer children ∨
      IsBelow inner outer siblings

theorem IsBelow.mem
    {inner outer : α}
    {forest : Forest α}
    (below : IsBelow inner outer forest) :
    inner ∈ forest.toList ∧ outer ∈ forest.toList := by
  induction forest with
  | nil => exact below.elim
  | node value children siblings childrenHypothesis siblingsHypothesis =>
      simp only [toList, List.mem_cons, List.mem_append]
      rcases below with ⟨rfl, member⟩ | within | beside
      · exact ⟨Or.inr (Or.inl member), Or.inl rfl⟩
      · have members := childrenHypothesis within
        exact ⟨Or.inr (Or.inl members.1), Or.inr (Or.inl members.2)⟩
      · have members := siblingsHypothesis beside
        exact ⟨Or.inr (Or.inr members.1), Or.inr (Or.inr members.2)⟩

/-- Every value passes a test together with the values above it, the nearest
first. The values of `above` stand above the whole forest. -/
def AllBelow (test : List α → α → Prop) (above : List α) : Forest α → Prop
  | nil => True
  | node value children siblings =>
    test above value ∧
      AllBelow test (value :: above) children ∧
      AllBelow test above siblings

variable {test test' : List α → α → Prop} {above above' : List α}

@[simp]
theorem allBelow_append {left right : Forest α} :
    (left ++ right).AllBelow test above ↔
      left.AllBelow test above ∧ right.AllBelow test above := by
  induction left with
  | nil => simp [AllBelow]
  | node value children siblings _ inductionHypothesis =>
      simp [AllBelow, inductionHypothesis, and_assoc]

@[simp]
theorem allBelow_single {value : α} {children : Forest α} :
    (single value children).AllBelow test above ↔
      test above value ∧ children.AllBelow test (value :: above) := by
  simp [single, AllBelow]

/-- More values above a forest do no harm to a test that they cannot fail. -/
theorem AllBelow.mono
    {forest : Forest α}
    (holds : forest.AllBelow test above)
    (weaker : ∀ path path' value, path ⊆ path' → test path value → test' path' value)
    (subset : above ⊆ above') :
    forest.AllBelow test' above' := by
  induction forest generalizing above above' with
  | nil => trivial
  | node value children siblings childrenHypothesis siblingsHypothesis =>
      obtain ⟨valuePasses, childrenPass, siblingsPass⟩ := holds
      refine ⟨weaker _ _ value subset valuePasses, ?_, siblingsHypothesis siblingsPass subset⟩
      exact childrenHypothesis childrenPass (List.cons_subset_cons value subset)

theorem AllBelow.exists_path
    {forest : Forest α}
    {value : α}
    (holds : forest.AllBelow test above)
    (member : value ∈ forest.toList) :
    ∃ path, test path value ∧ ∀ outer ∈ path, outer ∈ above ∨ forest.IsBelow value outer := by
  induction forest generalizing above with
  | nil => simp [toList] at member
  | node root children siblings childrenHypothesis siblingsHypothesis =>
      obtain ⟨rootPasses, childrenPass, siblingsPass⟩ := holds
      simp only [toList, List.mem_cons, List.mem_append] at member
      rcases member with rfl | inChildren | inSiblings
      · exact ⟨above, rootPasses, fun outer isAbove => Or.inl isAbove⟩
      · obtain ⟨path, passes, onPath⟩ := childrenHypothesis childrenPass inChildren
        refine ⟨path, passes, ?_⟩
        intro outer outerMember
        rcases onPath outer outerMember with isAbove | below
        · rcases List.mem_cons.1 isAbove with isRoot | isAbove
          · exact Or.inr (Or.inl ⟨isRoot, inChildren⟩)
          · exact Or.inl isAbove
        · exact Or.inr (Or.inr (Or.inl below))
      · obtain ⟨path, passes, onPath⟩ := siblingsHypothesis siblingsPass inSiblings
        refine ⟨path, passes, ?_⟩
        intro outer outerMember
        exact (onPath outer outerMember).imp_right fun below => Or.inr (Or.inr below)

private theorem AllBelow.exists_path_of_mem_above
    {forest : Forest α}
    {inner outer : α}
    (holds : forest.AllBelow test above)
    (member : inner ∈ forest.toList)
    (isAbove : outer ∈ above) :
    ∃ path, test path inner ∧ outer ∈ path := by
  induction forest generalizing above with
  | nil => simp [toList] at member
  | node root children siblings childrenHypothesis siblingsHypothesis =>
      obtain ⟨rootPasses, childrenPass, siblingsPass⟩ := holds
      simp only [toList, List.mem_cons, List.mem_append] at member
      rcases member with rfl | inChildren | inSiblings
      · exact ⟨above, rootPasses, isAbove⟩
      · exact childrenHypothesis childrenPass inChildren (List.mem_cons_of_mem root isAbove)
      · exact siblingsHypothesis siblingsPass inSiblings isAbove

/-- If one value stands below another one, then it passes the test with a path
that leads past the other one. -/
theorem AllBelow.exists_path_of_isBelow
    {forest : Forest α}
    {inner outer : α}
    (holds : forest.AllBelow test above)
    (below : forest.IsBelow inner outer) :
    ∃ path, test path inner ∧ outer ∈ path := by
  induction forest generalizing above with
  | nil => exact below.elim
  | node root children siblings childrenHypothesis siblingsHypothesis =>
      obtain ⟨_, childrenPass, siblingsPass⟩ := holds
      rcases below with ⟨rfl, member⟩ | within | beside
      · exact childrenPass.exists_path_of_mem_above member List.mem_cons_self
      · exact childrenHypothesis childrenPass within
      · exact siblingsHypothesis siblingsPass beside

variable [DecidableEq α] {forest : Forest α} {value parent : α}

private theorem mem_of_hasRoot (isRoot : forest.hasRoot (· = value) = true) :
    value ∈ forest.toList := by
  induction forest with
  | nil => simp [hasRoot] at isRoot
  | node root children siblings _ siblingsHypothesis =>
      simp only [hasRoot, Bool.or_eq_true, decide_eq_true_eq] at isRoot
      simp only [toList, List.mem_cons, List.mem_append]
      rcases isRoot with rfl | beside
      · exact Or.inl rfl
      · exact Or.inr (Or.inr (siblingsHypothesis beside))

/-- Nothing stands above a root. -/
theorem not_isBelow_of_hasRoot
    (nodup : forest.toList.Nodup)
    (isRoot : forest.hasRoot (· = value) = true) :
    ¬IsBelow value parent forest := by
  induction forest with
  | nil => exact id
  | node root children siblings _ siblingsHypothesis =>
      simp only [toList, List.nodup_cons, List.nodup_append, List.mem_append, not_or] at nodup
      obtain ⟨⟨notInChildren, notInSiblings⟩, _, siblingsNodup, apart⟩ := nodup
      simp only [hasRoot, Bool.or_eq_true, decide_eq_true_eq] at isRoot
      rcases isRoot with rfl | beside
      · rintro (⟨_, member⟩ | within | below)
        · exact notInChildren member
        · exact notInChildren within.mem.1
        · exact notInSiblings below.mem.1
      · have member := mem_of_hasRoot beside
        rintro (⟨_, inChildren⟩ | within | below)
        · exact apart _ inChildren _ member rfl
        · exact apart _ within.mem.1 _ member rfl
        · exact siblingsHypothesis siblingsNodup beside below

/-- The parent of a value is the nearest of those above it. -/
theorem nearest_of_parent?_eq_some
    (nodup : forest.toList.Nodup)
    (isParent : forest.parent? (· = value) = some parent) :
    IsBelow value parent forest ∧
      ∀ other, IsBelow value other forest → other = parent ∨ IsBelow parent other forest := by
  induction forest with
  | nil => simp [parent?] at isParent
  | node root children siblings childrenHypothesis siblingsHypothesis =>
      simp only [toList, List.nodup_cons, List.nodup_append] at nodup
      obtain ⟨_, childrenNodup, siblingsNodup, apart⟩ := nodup
      rw [parent?] at isParent
      by_cases isRoot : children.hasRoot (· = value) = true
      · rw [if_pos isRoot, Option.some.injEq] at isParent
        subst isParent
        have member := mem_of_hasRoot isRoot
        refine ⟨Or.inl ⟨rfl, member⟩, ?_⟩
        rintro other (⟨rfl, _⟩ | within | beside)
        · exact Or.inl rfl
        · exact absurd within (not_isBelow_of_hasRoot childrenNodup isRoot)
        · exact absurd rfl (apart _ member _ beside.mem.1)
      · rw [if_neg isRoot, Option.or_eq_some_iff] at isParent
        rcases isParent with inChildren | ⟨_, inSiblings⟩
        · obtain ⟨below, nearest⟩ := childrenHypothesis childrenNodup inChildren
          refine ⟨Or.inr (Or.inl below), ?_⟩
          rintro other (⟨rfl, _⟩ | within | beside)
          · exact Or.inr (Or.inl ⟨rfl, below.mem.2⟩)
          · exact (nearest other within).imp_right fun above => Or.inr (Or.inl above)
          · exact absurd rfl (apart _ below.mem.1 _ beside.mem.1)
        · obtain ⟨below, nearest⟩ := siblingsHypothesis siblingsNodup inSiblings
          refine ⟨Or.inr (Or.inr below), ?_⟩
          rintro other (⟨_, member⟩ | within | beside)
          · exact absurd rfl (apart _ member _ below.mem.1)
          · exact absurd rfl (apart _ within.mem.1 _ below.mem.1)
          · exact (nearest other beside).imp_right fun above => Or.inr (Or.inr above)

theorem hasRoot_or_exists_parent? (member : value ∈ forest.toList) :
    forest.hasRoot (· = value) = true ∨ ∃ parent, forest.parent? (· = value) = some parent := by
  induction forest with
  | nil => simp [toList] at member
  | node root children siblings childrenHypothesis siblingsHypothesis =>
      simp only [hasRoot, parent?, Bool.or_eq_true, decide_eq_true_eq]
      by_cases isRoot : children.hasRoot (· = value) = true
      · exact Or.inr ⟨root, by rw [if_pos isRoot]⟩
      · rw [if_neg isRoot]
        simp only [toList, List.mem_cons, List.mem_append] at member
        rcases member with rfl | inChildren | inSiblings
        · exact Or.inl (Or.inl rfl)
        · obtain ⟨parent, isParent⟩ := (childrenHypothesis inChildren).resolve_left isRoot
          exact Or.inr ⟨parent, by rw [isParent, Option.some_or]⟩
        · rcases siblingsHypothesis inSiblings with isSibling | ⟨parent, isParent⟩
          · exact Or.inl (Or.inr isSibling)
          · right
            cases children.parent? (· = value) with
            | none => exact ⟨parent, by rw [isParent, Option.none_or]⟩
            | some nearer => exact ⟨nearer, by rw [Option.some_or]⟩

end Forest

end MacroRegions

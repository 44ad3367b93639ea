import Mathlib.Data.List.Forall2
import MacroRegions.LocationTag

/-!
Tags that agree with a place.

The path of a tag names a file when its parts are the last parts of the path of the
file. Agreement looks for this in the characters of the two paths. So it can be
followed from one file to another, does not see which of the two separators is
written, and never takes the end of a part for the part.
-/

namespace MacroRegions

namespace LocationTag

def IsSeparator (c : Char) : Prop :=
  c = '/' ∨ c = '\\'

/-- The parts of a path, empty ones included. -/
def components (path : Text) : List Text :=
  (normalizePath path).splitOn '/'

/-- Two paths are the same but for the style of their separators. -/
def SameButStyle (first second : Text) : Prop :=
  List.Forall₂ (fun c d => c = d ∨ IsSeparator c ∧ IsSeparator d) first second

@[simp]
theorem normalizePath_append (front back : Text) :
    normalizePath (front ++ back) = normalizePath front ++ normalizePath back :=
  List.map_append

theorem normalizePath_eq_iff {first second : Text} :
    normalizePath first = normalizePath second ↔ SameButStyle first second := by
  have charEq : ∀ c d : Char,
      (if c = '\\' then '/' else c) = (if d = '\\' then '/' else d) ↔
        c = d ∨ IsSeparator c ∧ IsSeparator d := by
    intro c d
    unfold IsSeparator
    grind
  rw [normalizePath, normalizePath, ← List.forall₂_eq_eq_eq, List.forall₂_map_left_iff,
    List.forall₂_map_right_iff, SameButStyle]
  simp only [charEq]

theorem namesFile_iff {path current : Text} :
    namesFile path current = true ↔
      normalizePath current = normalizePath path ∨
        '/' :: normalizePath path <:+ normalizePath current := by
  rw [namesFile, Bool.or_eq_true, decide_eq_true_eq, List.isSuffixOf_iff_suffix]

private theorem intercalate_append
    {front back : List Text}
    (frontNonempty : front ≠ [])
    (backNonempty : back ≠ []) :
    ['/'].intercalate (front ++ back) =
      ['/'].intercalate front ++ '/' :: ['/'].intercalate back := by
  induction front with
  | nil => exact absurd rfl frontNonempty
  | cons part rest inductionHypothesis =>
      rw [List.cons_append, List.intercalate_cons_of_ne_nil (by simp [backNonempty])]
      by_cases last : rest = []
      · subst last
        simp
      · rw [inductionHypothesis last, List.intercalate_cons_of_ne_nil last]
        simp

/-- A text ends with another one behind a slash exactly if its parts end with those
of the other and there are more of them. -/
theorem splitOn_suffix_iff {first second : Text} :
    first.splitOn '/' <:+ second.splitOn '/' ↔ second = first ∨ '/' :: first <:+ second := by
  constructor
  · intro suffix
    obtain ⟨front, frontEq⟩ := suffix
    have joined := congrArg ['/'].intercalate frontEq
    rw [List.intercalate_splitOn] at joined
    by_cases whole : front = []
    · rw [whole, List.nil_append, List.intercalate_splitOn] at joined
      exact Or.inl joined.symm
    · rw [intercalate_append whole (List.splitOn_ne_nil _ _), List.intercalate_splitOn] at joined
      exact Or.inr ⟨_, joined⟩
  · intro ends
    rcases ends with same | behind
    · subst same
      exact List.suffix_rfl
    · obtain ⟨front, rfl⟩ := behind
      rw [List.splitOn_append_cons_self]
      exact List.suffix_append _ _

/-- The path of a tag names a file exactly if its parts are the last parts of the
file's path. -/
theorem namesFile_iff_components_suffix {path current : Text} :
    namesFile path current = true ↔ components path <:+ components current := by
  rw [namesFile_iff, components, components, splitOn_suffix_iff]

theorem slash_suffix_normalizePath_iff {path : Text} :
    ['/'] <:+ normalizePath path ↔ ∃ c, path.getLast? = some c ∧ IsSeparator c := by
  have charEq : ∀ c : Char, (if c = '\\' then '/' else c) = '/' ↔ IsSeparator c := by
    intro c
    unfold IsSeparator
    grind
  have lastEq : ['/'] <:+ normalizePath path ↔ (normalizePath path).getLast? = some '/' := by
    rw [List.getLast?_eq_some_iff]
    exact exists_congr fun front => eq_comm
  rw [lastEq, normalizePath, List.getLast?_map, Option.map_eq_some_iff]
  simp only [charEq]

/-- What stands before a path in the path of the file that it names is nothing or
ends with a separator. -/
theorem namesFile_append_iff {front path : Text} :
    namesFile path (front ++ path) = true ↔
      front = [] ∨ ∃ c, front.getLast? = some c ∧ IsSeparator c := by
  have wholeEq :
      normalizePath front ++ normalizePath path = normalizePath path ↔ front = [] := by
    simp [normalizePath]
  have behindEq :
      '/' :: normalizePath path <:+ normalizePath front ++ normalizePath path ↔
        ['/'] <:+ normalizePath front := by
    have aligned :
        ['/'] ++ normalizePath path <:+ normalizePath front ++ normalizePath path ↔
          ['/'] <:+ normalizePath front ∧ normalizePath path = normalizePath path :=
      List.suffix_append_inj_of_length_eq rfl
    simpa using aligned
  rw [namesFile_iff, normalizePath_append, wholeEq, behindEq, slash_suffix_normalizePath_iff]

/-- What it is for a path to name a file by its last parts. It does not matter which
separators are written, and a path that begins within a part of another one does not
name it. -/
structure NamesByComponents (names : Text → Text → Bool) : Prop where
  names_iff : ∀ path current, names path current = true ↔ components path <:+ components current
  refl : ∀ path, names path path = true
  trans : ∀ first second third,
    names first second = true → names second third = true → names first third = true
  congr : ∀ path path' current current',
    SameButStyle path path' → SameButStyle current current' →
      names path current = names path' current'
  append_iff : ∀ front path,
    names path (front ++ path) = true ↔ front = [] ∨ ∃ c, front.getLast? = some c ∧ IsSeparator c

private theorem namesFile_congr
    {path path' current current' : Text}
    (pathStyle : SameButStyle path path')
    (currentStyle : SameButStyle current current') :
    namesFile path current = namesFile path' current' := by
  rw [namesFile, namesFile, normalizePath_eq_iff.2 pathStyle, normalizePath_eq_iff.2 currentStyle]

private theorem namesByComponents_namesFile : NamesByComponents namesFile where
  names_iff := fun _ _ => namesFile_iff_components_suffix
  refl := by
    intro path
    exact namesFile_iff_components_suffix.2 List.suffix_rfl
  trans := by
    intro first second third names names'
    rw [namesFile_iff_components_suffix] at names names' ⊢
    exact names.trans names'
  congr := fun _ _ _ _ => namesFile_congr
  append_iff := fun _ _ => namesFile_append_iff

/-- A tag agrees with a line of a file exactly if it has that line and, when it has a
path, the parts of the path are the last parts of the file's own. -/
theorem agreesWith_by_components :
    (∀ (tag : LocationTag) (line : Nat) (currentFile : Option Text),
        tag.agreesWith line currentFile = true ↔
          tag.line = line ∧
            (tag.filePath = none ∨
              ∃ path current,
                tag.filePath = some path ∧
                  currentFile = some current ∧
                  components path <:+ components current)) ∧
      NamesByComponents namesFile := by
  refine ⟨?_, namesByComponents_namesFile⟩
  intro tag line currentFile
  obtain ⟨filePath, tagLine⟩ := tag
  unfold agreesWith
  rw [Bool.and_eq_true, decide_eq_true_eq]
  apply and_congr_right
  intro _
  cases filePath with
  | none => simp
  | some path =>
      cases currentFile with
      | none => simp
      | some current => simp [namesFile_iff_components_suffix]

/-- The last part of a path is a part of it, the end of that part is not. -/
example :
    namesFile "a.cs".toList "src\\a.cs".toList = true ∧
      namesFile ".cs".toList "src\\a.cs".toList = false := by
  decide +kernel

end LocationTag

end MacroRegions

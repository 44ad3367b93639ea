import MacroRegions.Proofs.Source.Displacement

/-!
The table of lines, and how a line is found in it.

The table begins at zero, ascends and has an entry right behind each newline, so an
offset is on exactly one line: the one that has begun and before whose end it is.
Halving the table finds this line.
-/

namespace MacroRegions

namespace Text

theorem mem_offsetsBehindNewlines_iff {offset start : Nat} {text : Text} :
    start ∈ offsetsBehindNewlines offset text ↔
      ∃ front back, text = front ++ '\n' :: back ∧ start = offset + byteSize front + 1 := by
  have newlineSize : '\n'.utf8Size = 1 := rfl
  constructor
  · intro member
    induction text generalizing offset with
    | nil => simp [offsetsBehindNewlines] at member
    | cons c rest inductionHypothesis =>
        have later (memberLater : start ∈ offsetsBehindNewlines (offset + c.utf8Size) rest) :
            ∃ front back,
              c :: rest = front ++ '\n' :: back ∧ start = offset + byteSize front + 1 := by
          obtain ⟨front, back, rfl, rfl⟩ := inductionHypothesis memberLater
          exact ⟨c :: front, back, rfl, by rw [byteSize_cons]; omega⟩
        rw [offsetsBehindNewlines] at member
        split at member
        · next newline =>
            subst newline
            rcases List.mem_cons.1 member with rfl | memberLater
            · exact ⟨[], rest, rfl, rfl⟩
            · exact later memberLater
        · exact later member
  · rintro ⟨front, back, rfl, rfl⟩
    rw [offsetsBehindNewlines_append, offsetsBehindNewlines, if_pos rfl, newlineSize]
    exact List.mem_append_right _ List.mem_cons_self

/-- Lines begin at zero and right behind newlines. -/
theorem mem_lineStarts_iff {start : Nat} {text : Text} :
    start ∈ lineStarts text ↔
      start = 0 ∨ ∃ front back, text = front ++ '\n' :: back ∧ start = byteSize front + 1 := by
  rw [lineStarts, List.mem_cons, mem_offsetsBehindNewlines_iff]
  simp only [Nat.zero_add]

private theorem pairwise_offsetsBehindNewlines (offset : Nat) (text : Text) :
    (offsetsBehindNewlines offset text).Pairwise (· < ·) := by
  induction text generalizing offset with
  | nil => exact List.Pairwise.nil
  | cons c rest inductionHypothesis =>
      rw [offsetsBehindNewlines]
      split
      · refine List.pairwise_cons.2 ⟨?_, inductionHypothesis _⟩
        intro start member
        obtain ⟨front, back, _, rfl⟩ := mem_offsetsBehindNewlines_iff.1 member
        omega
      · exact inductionHypothesis _

/-- No line begins before or where another one does. -/
theorem pairwise_lineStarts (text : Text) : (lineStarts text).Pairwise (· < ·) := by
  refine List.pairwise_cons.2 ⟨?_, pairwise_offsetsBehindNewlines 0 text⟩
  intro start member
  obtain ⟨front, back, _, rfl⟩ := mem_offsetsBehindNewlines_iff.1 member
  omega

private theorem le_byteSize_of_mem_lineStarts
    {start : Nat}
    {text : Text}
    (member : start ∈ lineStarts text) :
    start ≤ byteSize text := by
  rcases List.mem_cons.1 member with rfl | later
  · exact Nat.zero_le _
  · have further := le_of_mem_offsetsBehindNewlines later
    omega

end Text

/-- The place that halving narrows a window to. The window begins at `base` and
is `size` items wide; the half is kept that `wanted` can be in. -/
def narrowFrom
    (valueAt : Nat → Nat)
    (wanted base size : Nat) :
    Nat :=
  if 1 < size then
    let half := size / 2
    if wanted < valueAt (base + half) then
      narrowFrom valueAt wanted base (size - half)
    else
      narrowFrom valueAt wanted (base + half) (size - half)
  else
    base
termination_by size

/-- What a search comes to: the place of the value, or the place at which it
would have to be put in. -/
inductive Sought where
  | found (index : Nat)
  | absent (index : Nat)
deriving DecidableEq, Repr

def seek (values : List Nat) (wanted : Nat) : Sought :=
  match values with
  | [] => .absent 0
  | first :: rest =>
    let valueAt := fun index => (first :: rest).getD index 0
    let index := narrowFrom valueAt wanted 0 (rest.length + 1)
    match compare (valueAt index) wanted with
    | .eq => .found index
    | .lt => .absent (index + 1)
    | .gt => .absent index

/-- The place of the last value that is not past what was looked for. -/
def Sought.lastPlace : Sought → Nat
  | found index => index
  | absent index => index - 1

/-- Halving comes to the one place whose value is not past `wanted` and whose
next value is, if the window has it. -/
theorem narrowFrom_spec
    {valueAt : Nat → Nat}
    {wanted count : Nat}
    (ascends : ∀ first second, first ≤ second → second < count → valueAt first ≤ valueAt second)
    (base size : Nat)
    (positive : 0 < size)
    (within : base + size ≤ count)
    (begun : valueAt base ≤ wanted)
    (ended : base + size < count → wanted < valueAt (base + size)) :
    narrowFrom valueAt wanted base size < count ∧
      valueAt (narrowFrom valueAt wanted base size) ≤ wanted ∧
        (narrowFrom valueAt wanted base size + 1 < count →
          wanted < valueAt (narrowFrom valueAt wanted base size + 1)) := by
  fun_induction narrowFrom valueAt wanted base size with
  | case1 base size wide half before inductionHypothesis =>
      refine inductionHypothesis (by omega) (by omega) begun ?_
      -- the kept half is the wider one if the halves differ
      intro more
      exact Nat.lt_of_lt_of_le before (ascends _ _ (by omega) more)
  | case2 base size wide half reached inductionHypothesis =>
      refine inductionHypothesis (by omega) (by omega) (by omega) ?_
      rw [show base + half + (size - half) = base + size by omega]
      exact ended
  | case3 base size narrow =>
      obtain rfl : size = 1 := by omega
      exact ⟨within, begun, ended⟩

namespace Source

/-! ## The line of an offset -/

/-- The line with `index` lines before it begins at `start` and holds the byte at
`offset`, or ends the text there. -/
structure HoldsAt (source : Source) (offset index start : Nat) : Prop where
  starts : source.lineStarts[index]? = some start
  begun : start ≤ offset
  notEnded : ∀ next, source.lineStarts[index + 1]? = some next → offset < next

private theorem pairwise_lineStarts (source : Source) : source.lineStarts.Pairwise (· < ·) := by
  rw [source.lineStarts_eq]
  exact Text.pairwise_lineStarts source.text

theorem head?_lineStarts (source : Source) : source.lineStarts[0]? = some 0 := by
  rw [source.lineStarts_eq]
  rfl

theorem lt_of_getElem?_lineStarts
    {source : Source}
    {first second start next : Nat}
    (before : first < second)
    (starts : source.lineStarts[first]? = some start)
    (startsNext : source.lineStarts[second]? = some next) :
    start < next := by
  obtain ⟨firstWithin, rfl⟩ := List.getElem?_eq_some_iff.1 starts
  obtain ⟨secondWithin, rfl⟩ := List.getElem?_eq_some_iff.1 startsNext
  exact List.pairwise_iff_getElem.1 source.pairwise_lineStarts _ _ _ _ before

theorem le_size_of_getElem?_lineStarts
    {source : Source}
    {index start : Nat}
    (starts : source.lineStarts[index]? = some start) :
    start ≤ source.size := by
  have member := List.mem_of_getElem? starts
  rw [source.lineStarts_eq] at member
  rw [source.size_eq]
  exact Text.le_byteSize_of_mem_lineStarts member

namespace HoldsAt

variable {source : Source} {offset index start : Nat}

/-- The lines that have begun at an offset are those up to the one that holds
it. -/
theorem takeWhile_eq (holds : source.HoldsAt offset index start) :
    source.lineStarts.takeWhile (· ≤ offset) = source.lineStarts.take (index + 1) := by
  obtain ⟨starts, begun, notEnded⟩ := holds
  have front : ∀ value ∈ source.lineStarts.take (index + 1), value ≤ offset := by
    intro value member
    obtain ⟨place, placed⟩ := List.mem_iff_getElem?.1 member
    rw [List.getElem?_take] at placed
    split at placed
    · next near =>
        rcases Nat.lt_or_eq_of_le (Nat.le_of_lt_succ near) with before | rfl
        · have increasing := lt_of_getElem?_lineStarts before placed starts
          omega
        · obtain rfl : value = start := Option.some.inj (placed.symm.trans starts)
          exact begun
    · simp at placed
  have back : (source.lineStarts.drop (index + 1)).takeWhile (· ≤ offset) = [] := by
    cases later : source.lineStarts.drop (index + 1) with
    | nil => rfl
    | cons next rest =>
        have startsNext : source.lineStarts[index + 1]? = some next := by
          have headEq := List.head?_drop (l := source.lineStarts) (i := index + 1)
          rw [← headEq, later, List.head?_cons]
        have behind := notEnded next startsNext
        rw [List.takeWhile_cons_of_neg (by simpa using behind)]
  calc
    source.lineStarts.takeWhile (· ≤ offset)
    _ = (source.lineStarts.take (index + 1) ++ source.lineStarts.drop (index + 1)).takeWhile
          (· ≤ offset) := by rw [List.take_append_drop]
    _ = source.lineStarts.take (index + 1) := by
          rw [List.takeWhile_append_of_pos (by simpa using front), back, List.append_nil]

private theorem getLastD_takeWhile (holds : source.HoldsAt offset index start) :
    (source.lineStarts.takeWhile (· ≤ offset)).getLastD 0 = start := by
  rw [holds.takeWhile_eq, List.take_add_one, holds.starts]
  simp

theorem pointAt_eq
    (holds : source.HoldsAt offset index start)
    (within : offset ≤ source.size) :
    source.pointAt offset = ⟨index + 1, offset - start + 1, offset⟩ := by
  obtain ⟨indexWithin, _⟩ := List.getElem?_eq_some_iff.1 holds.starts
  have begun : (source.lineStarts.takeWhile (· ≤ offset)).length = index + 1 := by
    rw [holds.takeWhile_eq, List.length_take]
    omega
  simp only [pointAt, Nat.min_eq_left within, begun, holds.getLastD_takeWhile]

theorem lineStartOf_eq
    (holds : source.HoldsAt offset index start)
    (within : offset ≤ source.size) :
    source.lineStartOf offset = start := by
  rw [lineStartOf, Nat.min_eq_left within, holds.getLastD_takeWhile]

/-- A line that has begun begins no later than the one that holds the offset. -/
theorem le_start
    {other : Nat}
    (holds : source.HoldsAt offset index start)
    (member : other ∈ source.lineStarts)
    (begun : other ≤ offset) :
    other ≤ start := by
  obtain ⟨place, placed⟩ := List.mem_iff_getElem?.1 member
  rcases Nat.lt_trichotomy place index with before | rfl | behind
  · exact Nat.le_of_lt (lt_of_getElem?_lineStarts before placed holds.starts)
  · exact Nat.le_of_eq (Option.some.inj (placed.symm.trans holds.starts))
  · obtain ⟨next, startsNext⟩ : ∃ next, source.lineStarts[index + 1]? = some next := by
      obtain ⟨placeWithin, _⟩ := List.getElem?_eq_some_iff.1 placed
      exact ⟨_, List.getElem?_eq_getElem (by omega)⟩
    have ended := holds.notEnded next startsNext
    rcases Nat.lt_or_eq_of_le (Nat.succ_le_of_lt behind) with further | rfl
    · have increasing := lt_of_getElem?_lineStarts further startsNext placed
      omega
    · obtain rfl : next = other := Option.some.inj (startsNext.symm.trans placed)
      omega

end HoldsAt

def soughtIndex (source : Source) (offset : Nat) : Nat :=
  (seek source.lineStarts (min offset source.size)).lastPlace

/-- The point at an offset, its line found by halving. The table may have no such
line, or one that begins behind the offset. -/
def soughtPoint? (source : Source) (offset : Nat) : Option Point := do
  let clamped := min offset source.size
  let index := source.soughtIndex offset
  let start ← source.lineStarts[index]?
  if start ≤ clamped then
    some ⟨index + 1, clamped - start + 1, clamped⟩
  else
    none

/-- The beginning of the line of an offset, looked up by the line of its point. -/
def soughtLineStart? (source : Source) (offset : Nat) : Option Nat := do
  let point ← source.soughtPoint? offset
  source.lineStarts[point.line - 1]?

/-- Halving finds the line that holds an offset, and there is one. -/
theorem exists_holdsAt_soughtIndex (source : Source) (offset : Nat) :
    ∃ start,
      source.HoldsAt (min offset source.size) (source.soughtIndex offset) start := by
  generalize clampedEq : min offset source.size = clamped
  obtain ⟨rest, tableEq⟩ : ∃ rest, source.lineStarts = 0 :: rest :=
    ⟨_, source.lineStarts_eq⟩
  have valueAt_eq :
      ∀ index value,
        source.lineStarts[index]? = some value → (0 :: rest).getD index 0 = value := by
    intro index value placed
    rw [← tableEq, List.getD_eq_getElem?_getD, placed, Option.getD_some]
  have placed :
      ∀ index, index < rest.length + 1 →
        source.lineStarts[index]? = some ((0 :: rest).getD index 0) := by
    intro index within
    have within' : index < source.lineStarts.length := by simpa [tableEq] using within
    rw [List.getElem?_eq_getElem within',
      valueAt_eq index _ (List.getElem?_eq_getElem within')]
  have ascends :
      ∀ first second, first ≤ second → second < rest.length + 1 →
        (0 :: rest).getD first 0 ≤ (0 :: rest).getD second 0 := by
    intro first second ordered within
    rcases Nat.lt_or_eq_of_le ordered with before | rfl
    · exact
        Nat.le_of_lt
          (lt_of_getElem?_lineStarts before (placed first (by omega)) (placed second within))
    · exact Nat.le_refl _
  obtain ⟨within, begun, ended⟩ :=
    narrowFrom_spec ascends 0 (rest.length + 1) (Nat.succ_pos _) (by omega) (Nat.zero_le clamped)
      (by omega)
  have indexEq :
      source.soughtIndex offset =
        narrowFrom (fun index => (0 :: rest).getD index 0) clamped 0 (rest.length + 1) := by
    rw [soughtIndex, clampedEq, tableEq, seek]
    -- the value found is the one looked for or one before it, never one behind it
    rcases Nat.lt_or_eq_of_le begun with before | same
    · rw [Nat.compare_eq_lt.2 before]
      rfl
    · rw [Nat.compare_eq_eq.2 same]
      rfl
  rw [indexEq]
  refine ⟨_, placed _ within, begun, ?_⟩
  intro next startsNext
  obtain ⟨nextWithin, _⟩ := List.getElem?_eq_some_iff.1 startsNext
  rw [← valueAt_eq _ _ startsNext]
  exact ended (by simpa [tableEq] using nextWithin)

theorem exists_holdsAt
    {source : Source}
    {offset : Nat}
    (within : offset ≤ source.size) :
    ∃ index start, source.HoldsAt offset index start := by
  obtain ⟨start, holds⟩ := source.exists_holdsAt_soughtIndex offset
  rw [Nat.min_eq_left within] at holds
  exact ⟨_, start, holds⟩

theorem pointAt_min (source : Source) (offset : Nat) :
    source.pointAt (min offset source.size) = source.pointAt offset := by
  simp only [pointAt, Nat.min_assoc, Nat.min_self]

/-- The point found by halving is the point of the offset, also past the end. -/
theorem soughtPoint?_eq (source : Source) (offset : Nat) :
    source.soughtPoint? offset = some (source.pointAt offset) := by
  obtain ⟨start, holds⟩ := source.exists_holdsAt_soughtIndex offset
  rw [← pointAt_min, holds.pointAt_eq (Nat.min_le_right _ _)]
  simp only [soughtPoint?, holds.starts, Option.bind_eq_bind, Option.bind_some]
  rw [if_pos holds.begun]

theorem soughtLineStart?_eq (source : Source) (offset : Nat) :
    source.soughtLineStart? offset = some (source.lineStartOf offset) := by
  obtain ⟨start, holds⟩ := source.exists_holdsAt_soughtIndex offset
  have startEq : source.lineStartOf offset = start := by
    rw [← holds.lineStartOf_eq (Nat.min_le_right _ _)]
    simp only [lineStartOf, Nat.min_assoc, Nat.min_self]
  rw [soughtLineStart?, soughtPoint?_eq, ← pointAt_min, holds.pointAt_eq (Nat.min_le_right _ _),
    startEq]
  exact holds.starts

end Source

end MacroRegions

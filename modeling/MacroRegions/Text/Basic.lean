/-!
Texts and their byte offsets.

A text is the list of its characters. Offsets count the bytes of its UTF-8
form, so a cut is possible only where one character ends and the next begins:
the two cutting functions answer `none` at every other offset.
-/

namespace MacroRegions

abbrev Text := List Char

namespace Text

/-- Number of bytes of the UTF-8 form. -/
def byteSize : Text → Nat
  | [] => 0
  | c :: rest => c.utf8Size + byteSize rest

def dropBytes? : Nat → Text → Option Text
  | 0, text => some text
  | _ + 1, [] => none
  | count + 1, c :: rest =>
    if c.utf8Size ≤ count + 1 then
      dropBytes? (count + 1 - c.utf8Size) rest
    else
      none

def takeBytes? : Nat → Text → Option Text
  | 0, _ => some []
  | _ + 1, [] => none
  | count + 1, c :: rest =>
    if c.utf8Size ≤ count + 1 then
      (takeBytes? (count + 1 - c.utf8Size) rest).map (c :: ·)
    else
      none

/-- The bytes from `start` up to `stop`. -/
def slice? (start stop : Nat) (text : Text) : Option Text :=
  if start ≤ stop then
    (dropBytes? start text).bind (takeBytes? (stop - start))
  else
    none

@[simp]
theorem byteSize_nil : byteSize [] = 0 := rfl

@[simp]
theorem byteSize_cons (c : Char) (rest : Text) :
    byteSize (c :: rest) = c.utf8Size + byteSize rest := rfl

@[simp]
theorem byteSize_append (left right : Text) :
    byteSize (left ++ right) = byteSize left + byteSize right := by
  induction left with
  | nil => simp
  | cons c rest inductionHypothesis =>
      simp only [List.cons_append, byteSize_cons, inductionHypothesis]
      omega

theorem dropBytes?_eq_some_iff {count : Nat} {text rest : Text} :
    dropBytes? count text = some rest ↔
      ∃ front, text = front ++ rest ∧ byteSize front = count := by
  constructor
  · intro dropped
    fun_induction dropBytes? count text with
    | case1 text =>
        exact ⟨[], by simpa using dropped, rfl⟩
    | case2 => simp at dropped
    | case3 count c tail fits inductionHypothesis =>
        obtain ⟨front, equality, size⟩ := inductionHypothesis dropped
        refine ⟨c :: front, by simp [equality], ?_⟩
        simp only [byteSize_cons]
        omega
    | case4 => simp at dropped
  · rintro ⟨front, rfl, rfl⟩
    induction front with
    | nil => simp [dropBytes?]
    | cons c front inductionHypothesis =>
        have positive := Char.utf8Size_pos c
        obtain ⟨count, countEq⟩ : ∃ count, byteSize (c :: front) = count + 1 :=
          ⟨byteSize (c :: front) - 1, by simp only [byteSize_cons]; omega⟩
        rw [countEq, List.cons_append, dropBytes?]
        simp only [byteSize_cons] at countEq
        rw [if_pos (by omega), show count + 1 - c.utf8Size = byteSize front by omega]
        exact inductionHypothesis

theorem takeBytes?_eq_some_iff {count : Nat} {text front : Text} :
    takeBytes? count text = some front ↔
      ∃ rest, text = front ++ rest ∧ byteSize front = count := by
  constructor
  · intro taken
    fun_induction takeBytes? count text generalizing front with
    | case1 text =>
        obtain rfl : [] = front := by simpa using taken
        exact ⟨text, rfl, rfl⟩
    | case2 => simp at taken
    | case3 count c tail fits inductionHypothesis =>
        obtain ⟨shorter, shorterTaken, rfl⟩ := Option.map_eq_some_iff.1 taken
        obtain ⟨rest, equality, size⟩ := inductionHypothesis shorterTaken
        refine ⟨rest, by simp [equality], ?_⟩
        simp only [byteSize_cons]
        omega
    | case4 => simp at taken
  · rintro ⟨rest, rfl, rfl⟩
    induction front with
    | nil => simp [takeBytes?]
    | cons c front inductionHypothesis =>
        have positive := Char.utf8Size_pos c
        obtain ⟨count, countEq⟩ : ∃ count, byteSize (c :: front) = count + 1 :=
          ⟨byteSize (c :: front) - 1, by simp only [byteSize_cons]; omega⟩
        rw [countEq, List.cons_append, takeBytes?]
        simp only [byteSize_cons] at countEq
        rw [if_pos (by omega), show count + 1 - c.utf8Size = byteSize front by omega,
          inductionHypothesis]
        rfl

/-- A slice is found exactly where its bytes are. -/
theorem slice?_eq_some_iff {start stop : Nat} {text piece : Text} :
    slice? start stop text = some piece ↔
      ∃ front rest,
        text = front ++ piece ++ rest ∧
          byteSize front = start ∧ start + byteSize piece = stop := by
  unfold slice?
  constructor
  · intro sliced
    split at sliced
    next ordered =>
      obtain ⟨tail, dropped, taken⟩ := Option.bind_eq_some_iff.1 sliced
      obtain ⟨front, rfl, rfl⟩ := dropBytes?_eq_some_iff.1 dropped
      obtain ⟨rest, rfl, size⟩ := takeBytes?_eq_some_iff.1 taken
      exact ⟨front, rest, by simp, rfl, by omega⟩
    next => simp at sliced
  · rintro ⟨front, rest, rfl, rfl, rfl⟩
    rw [if_pos (by omega), Option.bind_eq_some_iff]
    exact
      ⟨piece ++ rest,
        dropBytes?_eq_some_iff.2 ⟨front, by simp, rfl⟩,
        takeBytes?_eq_some_iff.2 ⟨rest, rfl, by omega⟩⟩

def afterPrefix? : (front : Text) → (text : Text) → Option Text
  | [], text => some text
  | _ :: _, [] => none
  | expected :: front, c :: rest =>
    if c = expected then afterPrefix? front rest else none

def beforeSuffix? (back text : Text) : Option Text :=
  (afterPrefix? back.reverse text.reverse).map List.reverse

theorem afterPrefix?_eq_some_iff {front text rest : Text} :
    afterPrefix? front text = some rest ↔ text = front ++ rest := by
  fun_induction afterPrefix? front text with
  | case1 text => simp
  | case2 => simp
  | case3 front c tail inductionHypothesis => simp [inductionHypothesis]
  | case4 expected front c tail different => simp [different]

theorem beforeSuffix?_eq_some_iff {back text front : Text} :
    beforeSuffix? back text = some front ↔ text = front ++ back := by
  unfold beforeSuffix?
  rw [Option.map_eq_some_iff]
  constructor
  · rintro ⟨reversed, found, rfl⟩
    have equality := congrArg List.reverse (afterPrefix?_eq_some_iff.1 found)
    simpa using equality
  · rintro rfl
    exact ⟨front.reverse, afterPrefix?_eq_some_iff.2 (by simp), by simp⟩

def withoutReturn (text : Text) : Text :=
  (beforeSuffix? ['\r'] text).getD text

def firstLine (text : Text) : Text :=
  text.takeWhile (· ≠ '\n')

/-- The lines of a text: cut at each newline, and one carriage return before
the newline goes with it. Nothing after the last newline is no line. -/
def lines (text : Text) : List Text :=
  go [] text
where
  go (reversed : Text) : Text → List Text
    | [] => if reversed.isEmpty then [] else [reversed.reverse]
    | c :: rest =>
      if c = '\n' then
        withoutReturn reversed.reverse :: go [] rest
      else
        go (c :: reversed) rest

end Text

end MacroRegions

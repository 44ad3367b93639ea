import MacroRegions.Text.Blank

/-!
Trimmed texts and last words.

What trimming takes away can be put back around another trimmed text, and the last
word of a text is what stands behind its last blank.
-/

namespace MacroRegions.Text

def AllBlank (text : Text) : Prop :=
  ∀ c ∈ text, isBlank c = true

def BlankFree (text : Text) : Prop :=
  ∀ c ∈ text, isBlank c = false

def StartsVisible (text : Text) : Prop :=
  ∀ c, text.head? = some c → isBlank c = false

def EndsVisible (text : Text) : Prop :=
  ∀ c, text.getLast? = some c → isBlank c = false

theorem allBlank_space : AllBlank [' '] := by
  intro c member
  obtain rfl := List.mem_singleton.1 member
  decide

theorem blankFree_of_all {text : Text} (visible : text.all (!isBlank ·) = true) :
    BlankFree text := by
  intro c member
  simpa using List.all_eq_true.1 visible c member

theorem BlankFree.startsVisible {text : Text} (blankFree : BlankFree text) :
    StartsVisible text :=
  fun c headEq => blankFree c (List.mem_of_head? headEq)

theorem BlankFree.endsVisible {text : Text} (blankFree : BlankFree text) : EndsVisible text :=
  fun c lastEq => blankFree c (List.mem_of_getLast? lastEq)

theorem BlankFree.newline_notMem {text : Text} (blankFree : BlankFree text) : '\n' ∉ text := by
  intro member
  exact absurd (blankFree '\n' member) (by decide)

theorem EndsVisible.append
    {text : Text}
    (front : Text)
    (nonempty : text ≠ [])
    (visible : EndsVisible text) :
    EndsVisible (front ++ text) := by
  intro c lastEq
  rw [List.getLast?_append, List.getLast?_eq_some_getLast nonempty, Option.some_or,
    ← List.getLast?_eq_some_getLast nonempty] at lastEq
  exact visible c lastEq

theorem StartsVisible.append
    {text : Text}
    (back : Text)
    (nonempty : text ≠ [])
    (visible : StartsVisible text) :
    StartsVisible (text ++ back) := by
  cases text with
  | nil => exact absurd rfl nonempty
  | cons first rest => exact visible

theorem EndsVisible.of_append
    {front back : Text}
    (visible : EndsVisible (front ++ back)) :
    EndsVisible back := by
  intro c lastEq
  exact visible c (by rw [List.getLast?_append, lastEq, Option.some_or])

theorem StartsVisible.of_append
    {front back : Text}
    (visible : StartsVisible (front ++ back)) :
    StartsVisible front := by
  intro c headEq
  exact visible c (by rw [List.head?_append, headEq, Option.some_or])

theorem isBlank_of_endsWord
    {text : Text}
    {c : Char}
    (ended : endsWord text = true)
    (headEq : text.head? = some c) :
    isBlank c = true := by
  cases text with
  | nil => simp at headEq
  | cons first rest =>
      obtain rfl := Option.some.inj headEq
      exact ended

/-- Blanks that do not end with a blank are none at all. -/
theorem AllBlank.eq_nil
    {text : Text}
    (blank : AllBlank text)
    (visible : EndsVisible text) :
    text = [] := by
  cases lastEq : text.getLast? with
  | none => exact List.getLast?_eq_none_iff.1 lastEq
  | some c =>
      have isBlankEq := blank c (List.mem_of_getLast? lastEq)
      rw [visible c lastEq] at isBlankEq
      exact absurd isBlankEq Bool.false_ne_true

theorem trimStart_append
    {front : Text}
    (blank : AllBlank front)
    (text : Text) :
    trimStart (front ++ text) = trimStart text :=
  List.dropWhile_append_of_pos blank

theorem trimStart_eq_self {text : Text} (visible : StartsVisible text) :
    trimStart text = text := by
  cases text with
  | nil => rfl
  | cons c rest =>
      have notBlank := visible c rfl
      simp [trimStart, notBlank]

private theorem trimEnd_append
    {back : Text}
    (blank : AllBlank back)
    (text : Text) :
    trimEnd (text ++ back) = trimEnd text := by
  have reversed : AllBlank back.reverse := fun c member => blank c (List.mem_reverse.1 member)
  rw [trimEnd, List.reverse_append, List.dropWhile_append_of_pos reversed, trimEnd]

theorem trimEnd_eq_self {text : Text} (visible : EndsVisible text) :
    trimEnd text = text := by
  have reversed : StartsVisible text.reverse := by
    intro c headEq
    exact visible c (by rwa [List.head?_reverse] at headEq)
  have trimmed := trimStart_eq_self reversed
  rw [trimStart] at trimmed
  rw [trimEnd, trimmed, List.reverse_reverse]

private theorem startsVisible_trimStart (text : Text) : StartsVisible (trimStart text) := by
  intro c headEq
  have stops := List.head?_dropWhile_not isBlank text
  rw [trimStart] at headEq
  rw [headEq] at stops
  simpa using stops

theorem endsVisible_trimEnd (text : Text) : EndsVisible (trimEnd text) := by
  intro c lastEq
  rw [trimEnd, List.getLast?_reverse] at lastEq
  exact startsVisible_trimStart text.reverse c lastEq

theorem trimEnd_isPrefix (text : Text) : trimEnd text <+: text :=
  ⟨_, trimEnd_append_takeWhile text⟩

theorem startsVisible_trim (text : Text) : StartsVisible (trim text) := by
  intro c headEq
  have isPrefix : trim text <+: trimStart text := trimEnd_isPrefix _
  obtain ⟨back, backEq⟩ := isPrefix
  refine startsVisible_trimStart text c ?_
  rw [← backEq, List.head?_append, headEq]
  rfl

theorem endsVisible_trim (text : Text) : EndsVisible (trim text) :=
  endsVisible_trimEnd _

/-- A text that neither begins nor ends with a blank is found between blanks. -/
theorem trim_append_append
    {front text back : Text}
    (frontBlank : AllBlank front)
    (starts : StartsVisible text)
    (ends : EndsVisible text)
    (backBlank : AllBlank back) :
    trim (front ++ text ++ back) = text := by
  rw [trim, List.append_assoc, trimStart_append frontBlank]
  by_cases none : text = []
  · subst none
    have rest : trimStart ([] ++ back) = [] := by
      rw [List.nil_append, ← List.append_nil back, trimStart_append backBlank]
      rfl
    rw [rest]
    rfl
  · rw [trimStart_eq_self (starts.append back none), trimEnd_append backBlank,
      trimEnd_eq_self ends]

/-- A text is the trimmed text with blanks around it. -/
theorem exists_frame (text : Text) :
    ∃ front back,
      text = front ++ trim text ++ back ∧ AllBlank front ∧ AllBlank back := by
  obtain ⟨front, back, equality, frontBlank, backBlank⟩ := exists_trim_eq text
  exact ⟨front, back, equality, List.all_eq_true.1 frontBlank, List.all_eq_true.1 backBlank⟩

theorem trim_append_of_allBlank
    {back : Text}
    (text : Text)
    (backBlank : AllBlank back) :
    trim (text ++ back) = trim text := by
  obtain ⟨front, behind, equality, frontBlank, behindBlank⟩ := exists_frame text
  have bothBlank : AllBlank (behind ++ back) := by
    intro c member
    rcases List.mem_append.1 member with inBehind | inBack
    · exact behindBlank c inBehind
    · exact backBlank c inBack
  have found :=
    trim_append_append frontBlank (startsVisible_trim text) (endsVisible_trim text) bothBlank
  rwa [← List.append_assoc, ← equality] at found

/-- What stands before a visible text is its indent. -/
theorem takeWhile_isBlank_append
    {front text : Text}
    (frontBlank : AllBlank front)
    (starts : StartsVisible text) :
    (front ++ text).takeWhile isBlank = front := by
  rw [List.takeWhile_append_of_pos frontBlank]
  cases text with
  | nil => simp
  | cons c rest =>
      have notBlank := starts c rfl
      simp [notBlank]

theorem blankFree_splitLastWord (text : Text) : BlankFree (splitLastWord text).2 := by
  intro c member
  have inReverse : c ∈ text.reverse.takeWhile (!isBlank ·) := by
    simpa [splitLastWord] using member
  simpa using List.all_eq_true.1 List.all_takeWhile c inReverse

/-- The text before a last word is empty or ends with a blank. -/
theorem splitLastWord_front (text : Text) (c : Char)
    (lastEq : (splitLastWord text).1.getLast? = some c) :
    isBlank c = true := by
  rw [splitLastWord, List.getLast?_reverse] at lastEq
  have stops := List.head?_dropWhile_not (!isBlank ·) text.reverse
  rw [lastEq] at stops
  simpa using stops

theorem splitLastWord_append_word
    {front word : Text}
    (wordFree : BlankFree word)
    (frontBlank : ∀ c, front.getLast? = some c → isBlank c = true) :
    splitLastWord (front ++ word) = (front, word) := by
  have reversedFree : ∀ c ∈ word.reverse, (!isBlank c) = true := by
    intro c member
    simp [wordFree c (List.mem_reverse.1 member)]
  have frontStops : front.reverse.takeWhile (!isBlank ·) = [] ∧
      front.reverse.dropWhile (!isBlank ·) = front.reverse := by
    cases reversed : front.reverse with
    | nil => simp
    | cons c rest =>
        have lastEq : front.getLast? = some c := by
          rw [← List.head?_reverse, reversed]
          rfl
        simp [frontBlank c lastEq]
  simp only [splitLastWord, List.reverse_append, List.dropWhile_append_of_pos reversedFree,
    List.takeWhile_append_of_pos reversedFree, frontStops.1, frontStops.2, List.append_nil,
    List.reverse_reverse]

/-- A word is the last one of a text: only blanks come behind it, and the text
before it is over or ends with a blank. -/
structure IsLastWord (word text : Text) : Prop where
  nonempty : word ≠ []
  blankFree : BlankFree word
  framed : ∃ front back,
    text = front ++ word ++ back ∧
      (∀ c, front.getLast? = some c → isBlank c = true) ∧ AllBlank back

/-- The last word is what splitting finds, unless it finds nothing. -/
theorem isLastWord_iff {word text : Text} :
    IsLastWord word text ↔ word ≠ [] ∧ (splitLastWord (trimEnd text)).2 = word := by
  constructor
  · intro isLast
    obtain ⟨nonempty, wordFree, front, back, rfl, frontBlank, backBlank⟩ := isLast
    have trimmed : trimEnd (front ++ word ++ back) = front ++ word := by
      rw [trimEnd_append backBlank]
      exact trimEnd_eq_self (wordFree.endsVisible.append front nonempty)
    rw [trimmed, splitLastWord_append_word wordFree frontBlank]
    exact ⟨nonempty, rfl⟩
  · intro found
    obtain ⟨nonempty, rfl⟩ := found
    refine ⟨nonempty, blankFree_splitLastWord _, (splitLastWord (trimEnd text)).1,
      (text.reverse.takeWhile isBlank).reverse, ?_, splitLastWord_front _, ?_⟩
    · rw [splitLastWord_append, trimEnd_append_takeWhile]
    · intro c member
      exact List.all_eq_true.1 List.all_takeWhile c (List.mem_reverse.1 member)

theorem isLastWord_iff_of_endsVisible {word text : Text} (visible : EndsVisible text) :
    IsLastWord word text ↔ word ≠ [] ∧ (splitLastWord text).2 = word := by
  rw [isLastWord_iff, trimEnd_eq_self visible]

theorem head?_splitLastWord_iff {text : Text} {c : Char} (visible : EndsVisible text) :
    (splitLastWord text).2.head? = some c ↔
      ∃ word, IsLastWord word text ∧ word.head? = some c := by
  simp only [isLastWord_iff_of_endsVisible visible]
  constructor
  · intro headEq
    refine ⟨_, ⟨?_, rfl⟩, headEq⟩
    intro none
    rw [none] at headEq
    simp at headEq
  · intro found
    obtain ⟨word, ⟨_, rfl⟩, headEq⟩ := found
    exact headEq

end MacroRegions.Text

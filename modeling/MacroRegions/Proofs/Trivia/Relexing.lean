import Mathlib.Data.List.Forall2
import MacroRegions.Proofs.Marker.Framing

/-!
Lexing a text in which comments and directives have changed.

What a lexeme is depends on the text behind it only as far as the next comment or
directive begins, with one exception: a verbatim literal with a `"` right behind it
ends there only as long as there is no further `"`. That aside, the lexemes of the
changed text are the changed lexemes.
-/

namespace MacroRegions

/-- Two texts are the same up to where a comment or a directive begins. -/
def Text.SameUpToTrivia (rest rest' : Text) : Prop :=
  rest' = rest ∨
    ∃ common c tail tail',
      rest = common ++ c :: tail ∧ rest' = common ++ c :: tail' ∧ (c = '/' ∨ c = '#')

namespace Text.SameUpToTrivia

variable {rest rest' : Text}

theorem symm (same : SameUpToTrivia rest rest') : SameUpToTrivia rest' rest := by
  rcases same with rfl | ⟨common, c, tail, tail', rfl, rfl, opens⟩
  · exact Or.inl rfl
  · exact Or.inr ⟨common, c, tail', tail, rfl, rfl, opens⟩

theorem append_left
    (same : SameUpToTrivia rest rest')
    (front : Text) :
    SameUpToTrivia (front ++ rest) (front ++ rest') := by
  rcases same with rfl | ⟨common, c, tail, tail', rfl, rfl, opens⟩
  · exact Or.inl rfl
  · exact Or.inr ⟨front ++ common, c, tail, tail', by simp, by simp, opens⟩

theorem head?_eq (same : SameUpToTrivia rest rest') : rest'.head? = rest.head? := by
  rcases same with rfl | ⟨common, c, tail, tail', rfl, rfl, _⟩
  · rfl
  · simp [List.head?_append]

theorem nil (same : SameUpToTrivia [] rest') : rest' = [] := by
  rcases same with equality | ⟨common, c, tail, tail', none, _⟩
  · exact equality
  · simp at none

/-- Where the line ends behind a lexeme, it ends there in both texts. -/
theorem firstLine_eq
    (same : SameUpToTrivia rest rest')
    (ends : firstLine rest = [] ∨ firstLine rest = ['\r']) :
    firstLine rest' = firstLine rest := by
  rcases same with rfl | ⟨common, c, tail, tail', rfl, rfl, opens⟩
  · rfl
  · by_cases newline : '\n' ∈ common
    · rw [firstLine_append_of_mem newline, firstLine_append_of_mem newline]
    · have onLine : c ∈ firstLine (common ++ c :: tail) := by
        have notNewline : c ≠ '\n' := by
          rcases opens with rfl | rfl <;> decide
        rw [firstLine_append_of_notMem newline, firstLine_cons_of_ne notNewline]
        simp
      rcases ends with none | return'
      · rw [none] at onLine
        simp at onLine
      · rw [return', List.mem_singleton] at onLine
        subst onLine
        simp at opens

end Text.SameUpToTrivia

namespace Lexeme

theorem stringLength_cons_of_ne
    {c : Char}
    (notQuote : c ≠ '"')
    (notNewline : c ≠ '\n')
    (notEscape : c ≠ '\\')
    (rest : Text) :
    stringLength (c :: rest) = stringLength rest + 1 := by
  simp [stringLength, notEscape]

theorem stringLength_escape
    {c : Char}
    (notNewline : c ≠ '\n')
    (rest : Text) :
    stringLength ('\\' :: c :: rest) = stringLength rest + 2 := by
  simp [stringLength]

/-- A string literal of no characters is at the end of its line or of the text. -/
theorem stringLength_eq_zero_iff {text : Text} :
    stringLength text = 0 ↔ text.head? = none ∨ text.head? = some '\n' := by
  fun_cases stringLength text <;> simp_all

/-- A string literal ends where it does, whatever comes after the next
character. -/
theorem stringLength_append_congr
    {rest rest' : Text}
    (headEq : rest'.head? = rest.head?) :
    ∀ tail : Text,
      stringLength (tail ++ rest) = tail.length → stringLength (tail ++ rest') = tail.length
  | [], ends => by
      rw [List.nil_append] at ends ⊢
      rw [List.length_nil, stringLength_eq_zero_iff, headEq]
      exact stringLength_eq_zero_iff.1 ends
  | [c], ends => by
      by_cases notQuote : c = '"'
      · subst notQuote
        rfl
      · by_cases notNewline : c = '\n'
        · subst notNewline
          simp [stringLength] at ends
        · by_cases notEscape : c = '\\'
          · subst notEscape
            cases rest with
            | nil =>
                obtain rfl : rest' = [] := by simpa using headEq
                rfl
            | cons d rest =>
                obtain ⟨tail', rfl⟩ : ∃ tail', rest' = d :: tail' := by
                  cases rest' with
                  | nil => simp at headEq
                  | cons e tail' =>
                      obtain rfl : e = d := by simpa using headEq
                      exact ⟨tail', rfl⟩
                by_cases newline : d = '\n'
                · subst newline
                  rfl
                · rw [List.cons_append, List.nil_append, stringLength_escape newline] at ends
                  simp at ends
          · rw [List.cons_append, stringLength_cons_of_ne notQuote notNewline notEscape] at ends ⊢
            rw [stringLength_append_congr headEq [] (by simpa using ends)]
            rfl
  | c :: d :: tail, ends => by
      by_cases notQuote : c = '"'
      · subst notQuote
        simp [stringLength] at ends
      · by_cases notNewline : c = '\n'
        · subst notNewline
          simp [stringLength] at ends
        · by_cases notEscape : c = '\\'
          · subst notEscape
            by_cases newline : d = '\n'
            · subst newline
              simp [stringLength] at ends
            · simp only [List.cons_append, stringLength_escape newline, List.length_cons] at ends ⊢
              rw [stringLength_append_congr headEq tail (by omega)]
          · simp only [List.cons_append,
              stringLength_cons_of_ne notQuote notNewline notEscape] at ends ⊢
            have shorter :=
              stringLength_append_congr headEq (d :: tail) (by simpa using ends)
            rw [List.cons_append] at shorter
            rw [shorter]
            rfl

private theorem characterLength_cons_cons
    {c : Char}
    (notEscape : c ≠ '\\')
    (d : Char)
    (rest : Text) :
    characterLength (c :: d :: rest) =
      if c = '\'' ∨ c = '\n' then 0 else if d = '\'' then 2 else 1 := by
  by_cases isQuote : c = '\''
  · simp [characterLength, isQuote]
  · by_cases isNewline : c = '\n'
    · simp [characterLength, isNewline]
    · by_cases closes : d = '\''
      · simp [characterLength, isQuote, isNewline, notEscape, closes]
      · simp [characterLength, isQuote, isNewline, notEscape, closes]

private theorem characterLength_escape (c : Char) (rest : Text) :
    characterLength ('\\' :: c :: rest) =
      if c = '\n' then 1 else if rest.head? = some '\'' then 3 else 2 := by
  by_cases isNewline : c = '\n'
  · simp [characterLength, isNewline]
  · cases rest with
    | nil => simp [characterLength, isNewline]
    | cons d rest =>
        by_cases closes : d = '\''
        · simp [characterLength, isNewline, closes]
        · simp [characterLength, isNewline, closes]

private theorem stops_of_characterLength_eq_zero
    {c : Char}
    {rest : Text}
    (none : characterLength (c :: rest) = 0) :
    c = '\'' ∨ c = '\n' := by
  by_cases notEscape : c = '\\'
  · subst notEscape
    cases rest with
    | nil => simp [characterLength] at none
    | cons d rest =>
        rw [characterLength_escape] at none
        split at none
        · simp at none
        · split at none <;> simp at none
  · cases rest with
    | nil =>
        by_cases stops : c = '\'' ∨ c = '\n'
        · exact stops
        · obtain ⟨notQuote, notNewline⟩ := not_or.1 stops
          simp [characterLength, notEscape] at none
    | cons d rest =>
        rw [characterLength_cons_cons notEscape] at none
        split at none
        next stops => exact stops
        next => split at none <;> simp at none

private theorem characterLength_cons_congr
    (c : Char)
    {rest rest' : Text}
    (headEq : rest'.head? = rest.head?)
    (plain : c ≠ '\\') :
    characterLength (c :: rest') = characterLength (c :: rest) := by
  cases rest with
  | nil =>
      obtain rfl : rest' = [] := by simpa using headEq
      rfl
  | cons d rest =>
      cases rest' with
      | nil => simp at headEq
      | cons e rest' =>
          obtain rfl : e = d := by simpa using headEq
          rw [characterLength_cons_cons plain, characterLength_cons_cons plain]

/-- A character literal ends where it does, whatever comes after the next
character. -/
theorem characterLength_append_congr
    {rest rest' : Text}
    (headEq : rest'.head? = rest.head?)
    (tail : Text)
    (ends : characterLength (tail ++ rest) = tail.length) :
    characterLength (tail ++ rest') = tail.length := by
  have headAppend : ∀ front : Text, (front ++ rest').head? = (front ++ rest).head? := by
    intro front
    rw [List.head?_append, List.head?_append, headEq]
  rw [← ends]
  match tail with
  | [] =>
      have length : characterLength rest = 0 := ends
      cases rest with
      | nil =>
          obtain rfl : rest' = [] := by simpa using headEq
          rfl
      | cons c rest =>
          cases rest' with
          | nil => simp at headEq
          | cons d rest' =>
              obtain rfl : d = c := by simpa using headEq
              rcases stops_of_characterLength_eq_zero length with rfl | rfl <;> rfl
  | c :: tail =>
      by_cases notEscape : c = '\\'
      · subst notEscape
        cases tail with
        | nil =>
            cases rest with
            | nil =>
                obtain rfl : rest' = [] := by simpa using headEq
                rfl
            | cons d rest =>
                cases rest' with
                | nil => simp at headEq
                | cons e rest' =>
                    obtain rfl : e = d := by simpa using headEq
                    simp only [List.cons_append, List.nil_append, characterLength_escape] at ends ⊢
                    by_cases newline : e = '\n'
                    · simp [newline]
                    · simp only [newline, if_false] at ends
                      split at ends <;> simp at ends
        | cons d tail =>
            simp only [List.cons_append, characterLength_escape, headAppend]
      · exact characterLength_cons_congr c (headAppend tail) notEscape

theorem verbatimLength?_eq_none_iff {text : Text} :
    verbatimLength? text = none ↔ '"' ∉ text := by
  fun_induction verbatimLength? text with
  | case1 => simp
  | case2 rest inductionHypothesis => simp
  | case3 rest _ => simp
  | case4 c rest _ notQuote inductionHypothesis =>
      have different : '"' ≠ c := fun same => notQuote same.symm
      simp [inductionHypothesis, different]

theorem verbatimLength?_cons_of_ne
    {c : Char}
    (notQuote : c ≠ '"')
    (rest : Text) :
    verbatimLength? (c :: rest) = (verbatimLength? rest).map (· + 1) := by
  simp [verbatimLength?, notQuote]

theorem verbatimLength?_quote_of_head?_ne
    {rest : Text}
    (notQuote : rest.head? ≠ some '"') :
    verbatimLength? ('"' :: rest) = some 1 := by
  cases rest with
  | nil => rfl
  | cons c rest =>
      have different : c ≠ '"' := by simpa using notQuote
      simp [verbatimLength?, different]

private theorem verbatimLength?_ne_zero (text : Text) : verbatimLength? text ≠ some 0 := by
  fun_cases verbatimLength? text with
  | case1 => simp
  | case2 rest =>
      cases later : verbatimLength? rest with
      | none => simp
      | some length => simp
  | case3 rest _ => simp
  | case4 c rest _ _ => simp

/-- A verbatim literal ends with a `"` that closes it, and goes on up to there
whatever comes instead. -/
theorem exists_verbatim_inside {rest : Text} :
    ∀ {tail : Text},
      verbatimLength? (tail ++ rest) = some tail.length →
        ∃ inside,
          tail = inside ++ ['"'] ∧
            verbatimLength? ('"' :: rest) = some 1 ∧
            ∀ more length,
              verbatimLength? more = some length →
                verbatimLength? (inside ++ more) = some (inside.length + length)
  | [], ends => absurd ends (verbatimLength?_ne_zero _)
  | [c], ends => by
      by_cases isQuote : c = '"'
      · subst isQuote
        exact ⟨[], rfl, ends, fun more length closed => by simpa using closed⟩
      · rw [List.cons_append, List.nil_append, verbatimLength?_cons_of_ne isQuote] at ends
        obtain ⟨length, found, lengthEq⟩ := Option.map_eq_some_iff.1 ends
        obtain rfl : length = 0 := by simpa using lengthEq
        exact absurd found (verbatimLength?_ne_zero _)
  | c :: d :: tail, ends => by
      by_cases isQuote : c = '"'
      · subst isQuote
        by_cases doubled : d = '"'
        · subst doubled
          cases later : verbatimLength? (tail ++ rest) with
          | none => simp [verbatimLength?, later] at ends
          | some length =>
              obtain rfl : length = tail.length := by
                simpa [verbatimLength?, later] using ends
              obtain ⟨inside, rfl, closes, goesOn⟩ := exists_verbatim_inside later
              refine ⟨'"' :: '"' :: inside, rfl, closes, fun more length closed => ?_⟩
              simp only [List.cons_append, verbatimLength?, goesOn more length closed,
                List.length_cons, Option.some.injEq]
              omega
        · rw [List.cons_append, verbatimLength?_quote_of_head?_ne (by simpa using doubled)] at ends
          simp at ends
      · rw [List.cons_append, verbatimLength?_cons_of_ne isQuote] at ends
        obtain ⟨length, found, lengthEq⟩ := Option.map_eq_some_iff.1 ends
        obtain rfl : length = (d :: tail).length := by simpa using lengthEq
        obtain ⟨inside, tailEq, closes, goesOn⟩ := exists_verbatim_inside found
        refine ⟨c :: inside, by rw [tailEq, List.cons_append], closes,
          fun more length closed => ?_⟩
        rw [List.cons_append, verbatimLength?_cons_of_ne isQuote, goesOn more length closed,
          Option.map_some, List.length_cons, Option.some.injEq]
        omega

theorem verbatimLength?_quote_quote_eq_one_iff {rest : Text} :
    verbatimLength? ('"' :: '"' :: rest) = some 1 ↔ '"' ∉ rest := by
  rw [← verbatimLength?_eq_none_iff]
  cases later : verbatimLength? rest <;> simp [verbatimLength?, later]

/-- A verbatim literal ends where it does, whatever comes after the next
character, as long as a `"` that is right behind it stays the last one. -/
theorem verbatimLength?_append_congr
    {tail rest rest' : Text}
    (headEq : rest'.head? = rest.head?)
    (lastQuote : rest.head? = some '"' → '"' ∈ rest'.tail → '"' ∈ rest.tail)
    (ends : verbatimLength? (tail ++ rest) = some tail.length) :
    verbatimLength? (tail ++ rest') = some tail.length := by
  obtain ⟨inside, rfl, closes, goesOn⟩ := exists_verbatim_inside ends
  have closes' : verbatimLength? ('"' :: rest') = some 1 := by
    by_cases doubled : rest.head? = some '"'
    · obtain ⟨behind, rfl⟩ : ∃ behind, rest = '"' :: behind := List.head?_eq_some_iff.1 doubled
      obtain ⟨behind', rfl⟩ : ∃ behind', rest' = '"' :: behind' :=
        List.head?_eq_some_iff.1 (headEq.trans doubled)
      rw [verbatimLength?_quote_quote_eq_one_iff] at closes ⊢
      exact fun quote => closes (lastQuote rfl quote)
    · have notDoubled : rest'.head? ≠ some '"' := by rwa [headEq]
      exact verbatimLength?_quote_of_head?_ne notDoubled
  rw [List.append_assoc, List.singleton_append, goesOn _ _ closes', List.length_append]
  rfl

/-! ## Directives -/

private theorem withoutReturn_append_cons
    {c : Char}
    (notReturn : c ≠ '\r')
    (front tail : Text) :
    ∃ tail', Text.withoutReturn (front ++ c :: tail) = front ++ c :: tail' := by
  rcases Text.withoutReturn_cases (front ++ c :: tail) with equality | ⟨_, equality⟩
  · rcases List.eq_nil_or_concat tail with rfl | ⟨before, d, rfl⟩
    · have lastEq := congrArg List.getLast? equality
      simp at lastEq
      exact absurd lastEq notReturn
    · have split :
          (front ++ c :: before) ++ [d] =
            Text.withoutReturn (front ++ c :: before.concat d) ++ ['\r'] := by
        rw [← equality]
        simp
      exact ⟨before, (List.append_inj' split rfl).1.symm⟩
  · exact ⟨tail, equality⟩

/-- A word that stops before a character stays whole when the text is cut
there. -/
theorem exists_more_of_notMem
    {c : Char}
    {front tail word after : Text}
    (notWord : c ∉ word)
    (split : front ++ c :: tail = word ++ after) :
    ∃ more, front = word ++ more := by
  rcases List.append_eq_append_iff.1 split with ⟨more, wordEq, tailEq⟩ | ⟨more, frontEq, _⟩
  · cases more with
    | nil => exact ⟨[], by simpa using wordEq.symm⟩
    | cons d more =>
        obtain ⟨rfl, _⟩ := List.cons.inj tailEq
        exact absurd (by simp [wordEq]) notWord
  · exact ⟨more, frontEq⟩

def IsForeign (c : Char) : Prop :=
  isBlank c = false ∧ ∀ directive : Directive, c ∉ directive.keyword

private theorem isForeign_of_opens {c : Char} (opens : c = '/' ∨ c = '#') : IsForeign c := by
  rcases opens with rfl | rfl
  · exact ⟨by decide, fun directive => by cases directive <;> decide⟩
  · exact ⟨by decide, fun directive => by cases directive <;> decide⟩

theorem IsForeign.ne_of_isBlank
    {c d : Char}
    (foreign : IsForeign c)
    (blank : isBlank d = true) :
    c ≠ d := by
  rintro rfl
  exact absurd blank (by rw [foreign.1]; decide)

private theorem notMem_directive
    {c : Char}
    {gap : Text}
    (foreign : IsForeign c)
    (gapChars : ∀ d ∈ gap, d = ' ' ∨ d = '\t')
    (directive : Directive) :
    c ∉ gap ++ directive.keyword := by
  intro member
  rcases List.mem_append.1 member with inGap | inKeyword
  · rcases gapChars c inGap with space | tab
    · exact foreign.ne_of_isBlank (by decide) space
    · exact foreign.ne_of_isBlank (by decide) tab
  · exact foreign.2 directive inKeyword

/-- A line that begins with a directive still does when the text changes from a
character on that the directive cannot begin with. -/
theorem directiveRead?_isSome_congr
    {c c' : Char}
    {common behind behind' : Text}
    (foreign : IsForeign c)
    (oneLine : '\n' ∉ '#' :: (common ++ c' :: behind'))
    (isDirective : (Directive.read? ('#' :: (common ++ c :: behind))).isSome) :
    (Directive.read? ('#' :: (common ++ c' :: behind'))).isSome := by
  obtain ⟨⟨directive, after⟩, reads⟩ := Option.isSome_iff_exists.1 isDirective
  obtain ⟨indent, gap, lineEq, indentBlank, gapChars, ended, _⟩ :=
    Directive.read?_eq_some_iff.1 reads
  obtain rfl : indent = [] := by
    cases indent with
    | nil => rfl
    | cons d indent =>
        obtain ⟨rfl, _⟩ := List.cons.inj lineEq
        exact absurd (indentBlank '#' List.mem_cons_self) (by decide)
  have split : common ++ c :: behind = (gap ++ directive.keyword) ++ after := by
    simpa using lineEq
  obtain ⟨more, rfl⟩ :=
    exists_more_of_notMem (notMem_directive foreign gapChars directive) split
  have afterEq : after = more ++ c :: behind := by simpa using split.symm
  have ended' : Text.endsWord (more ++ c' :: behind') = true := by
    rw [afterEq] at ended
    cases more with
    | nil => exact absurd ended (by simp [Text.endsWord, foreign.1])
    | cons d more => exact ended
  have reads' :
      Directive.read? ('#' :: (gap ++ directive.keyword ++ more ++ c' :: behind')) =
        some (directive, more ++ c' :: behind') :=
    Directive.read?_eq_some_iff.2
      ⟨[], gap, by simp, by simp [Text.AllBlank], gapChars, ended', oneLine⟩
  rw [reads']
  rfl

/-- Whether a text begins with a directive is told by what stands before a
character that no directive begins with. -/
theorem directiveAt?_isSome_append_congr
    {c c' : Char}
    {common tail tail' : Text}
    (foreign : IsForeign c)
    (foreign' : IsForeign c')
    (isDirective : (directiveAt? ('#' :: (common ++ c :: tail))).isSome) :
    (directiveAt? ('#' :: (common ++ c' :: tail'))).isSome := by
  by_cases newline : '\n' ∈ common
  · have sameLine : Text.firstLine ('#' :: (common ++ c' :: tail')) =
        Text.firstLine ('#' :: (common ++ c :: tail)) := by
      rw [Text.firstLine_cons_of_ne (by decide), Text.firstLine_cons_of_ne (by decide),
        Text.firstLine_append_of_mem newline, Text.firstLine_append_of_mem newline]
    rw [directiveAt?, sameLine]
    exact isDirective
  · have lineEq : ∀ d behind, IsForeign d → ∃ behind',
        Text.withoutReturn (Text.firstLine ('#' :: (common ++ d :: behind))) =
          '#' :: (common ++ d :: behind') := by
      intro d behind visible
      rw [Text.firstLine_cons_of_ne (by decide), Text.firstLine_append_of_notMem newline,
        Text.firstLine_cons_of_ne (visible.ne_of_isBlank (by decide)), ← List.cons_append]
      exact withoutReturn_append_cons (visible.ne_of_isBlank (by decide)) _ _
    obtain ⟨behind, lineEq₁⟩ := lineEq c tail foreign
    obtain ⟨behind', lineEq₂⟩ := lineEq c' tail' foreign'
    have oneLine : '\n' ∉ '#' :: (common ++ c' :: behind') := by
      rw [← lineEq₂]
      exact fun member =>
        Text.newline_notMem_firstLine _ ((Text.withoutReturn_isPrefix _).subset member)
    rw [directiveAt?, lineEq₁, Option.isSome_map] at isDirective
    rw [directiveAt?, lineEq₂, Option.isSome_map]
    exact directiveRead?_isSome_congr foreign oneLine isDirective

/-- Whether a text begins with a directive is told by what stands before the
next comment or directive. -/
theorem directiveAt?_isSome_congr
    {rest rest' : Text}
    (same : Text.SameUpToTrivia rest rest')
    (isDirective : (directiveAt? ('#' :: rest)).isSome) :
    (directiveAt? ('#' :: rest')).isSome := by
  rcases same with rfl | ⟨common, c, tail, tail', rfl, rfl, opens⟩
  · exact isDirective
  · have foreign := isForeign_of_opens opens
    exact directiveAt?_isSome_append_congr foreign foreign isDirective

/-- What makes a character plain. -/
theorem head_eq_plain_iff {lineBlank : Bool} {c : Char} {rest : Text} :
    head lineBlank c rest = (.plain, 0) ↔
      ¬ (c = '/' ∧ (rest.head? = some '/' ∨ rest.head? = some '*')) ∧
        ¬ (c = '#' ∧ lineBlank = true ∧ (directiveAt? (c :: rest)).isSome) ∧
        c ≠ '"' ∧ c ≠ '\'' ∧ ¬ (c = '@' ∧ rest.head? = some '"') := by
  unfold head
  split
  · simp
  · next inner =>
      cases blockCommentLength? inner <;> simp
  · by_cases blank : lineBlank = true
    · cases directiveAt? ('#' :: rest) <;> simp [blank]
    · simp [blank]
  · simp
  · simp
  · simp
  · next notDirective notString notCharacter notLine notBlock notVerbatim =>
      refine iff_of_true rfl ⟨?_, ?_, ?_, ?_, ?_⟩
      · rintro ⟨rfl, headEq | headEq⟩
        · obtain ⟨behind, rfl⟩ := List.head?_eq_some_iff.1 headEq
          exact notLine behind rfl rfl
        · obtain ⟨behind, rfl⟩ := List.head?_eq_some_iff.1 headEq
          exact notBlock behind rfl rfl
      · exact fun isDirective => notDirective isDirective.1
      · exact notString
      · exact notCharacter
      · rintro ⟨rfl, headEq⟩
        obtain ⟨behind, rfl⟩ := List.head?_eq_some_iff.1 headEq
        exact notVerbatim behind rfl rfl

private theorem head_eq_plain_congr
    {lineBlank : Bool}
    {c : Char}
    {rest rest' : Text}
    (same : Text.SameUpToTrivia rest rest')
    (alone : head lineBlank c rest = (.plain, 0)) :
    head lineBlank c rest' = (.plain, 0) := by
  obtain ⟨noComment, noDirective, noString, noCharacter, noVerbatim⟩ :=
    head_eq_plain_iff.1 alone
  rw [head_eq_plain_iff, same.head?_eq]
  refine ⟨noComment, ?_, noString, noCharacter, noVerbatim⟩
  rintro ⟨rfl, blank, isDirective⟩
  exact noDirective ⟨rfl, blank, directiveAt?_isSome_congr same.symm isDirective⟩

/-- A lexeme stays one when comments and directives behind it change. -/
theorem Shape.congr
    {lineBlank : Bool}
    {lexeme : Lexeme}
    {rest rest' : Text}
    (shape : Shape lineBlank rest lexeme)
    (same : Text.SameUpToTrivia rest rest')
    (lastQuote :
      ['@', '"'] <+: lexeme.text →
        rest.head? = some '"' → '"' ∈ rest'.tail → '"' ∈ rest.tail) :
    Shape lineBlank rest' lexeme := by
  have lineEnds :
      ∀ line : Text,
        Text.withoutReturn (Text.firstLine (line ++ rest)) = line →
          Text.withoutReturn (Text.firstLine (line ++ rest')) = line :=
    fun _ ends => Text.withoutReturn_firstLine_append_congr same.firstLine_eq ends
  cases shape with
  | lineComment tail ends => exact .lineComment tail (lineEnds ('/' :: '/' :: tail) ends)
  | blockComment front noClose => exact .blockComment front noClose
  | openComment inner noClose last =>
      subst last
      exact .openComment inner noClose same.nil
  | directive directive after tail blank reads ends =>
      exact .directive directive after tail blank reads (lineEnds ('#' :: tail) ends)
  | string tail ends => exact .string tail (stringLength_append_congr same.head?_eq tail ends)
  | character tail ends =>
      exact .character tail (characterLength_append_congr same.head?_eq tail ends)
  | verbatim tail ends =>
      cases closed : verbatimLength? (tail ++ rest) with
      | none =>
          rw [closed, Option.getD_none, List.length_append] at ends
          obtain rfl : rest = [] := List.eq_nil_of_length_eq_zero (by omega)
          rw [same.nil]
          exact .verbatim tail (by rw [closed, Option.getD_none, List.length_append, ends])
      | some length =>
          rw [closed, Option.getD_some] at ends
          subst ends
          have quotes := lastQuote ⟨tail, rfl⟩
          have closed' := verbatimLength?_append_congr same.head?_eq quotes closed
          exact .verbatim tail (by rw [closed', Option.getD_some])
  | plain c alone => exact .plain c (head_eq_plain_congr same alone)

theorem blankAfter_append (lineBlank : Bool) (front back : Text) :
    blankAfter lineBlank (front ++ back) = blankAfter (blankAfter lineBlank front) back :=
  List.foldl_append

private theorem blankAfter_false_of_notMem {text : Text} (oneLine : '\n' ∉ text) :
    blankAfter false text = false := by
  induction text with
  | nil => rfl
  | cons c rest inductionHypothesis =>
      obtain ⟨different, later⟩ := not_or.1 (mt List.mem_cons.2 oneLine)
      have step : blankAfter false (c :: rest) = blankAfter false rest := by
        simp [blankAfter, Ne.symm different]
      rw [step, inductionHypothesis later]

/-- A line is not blank behind a visible character on it. -/
theorem blankAfter_eq_false
    {c : Char}
    {back : Text}
    (visible : isBlank c = false)
    (oneLine : '\n' ∉ back)
    (lineBlank : Bool)
    (front : Text) :
    blankAfter lineBlank (front ++ c :: back) = false := by
  have notNewline : c ≠ '\n' := by
    rintro rfl
    exact absurd visible (by decide)
  have step :
      blankAfter (blankAfter lineBlank front) (c :: back) = blankAfter false back := by
    simp [blankAfter, visible, notNewline]
  rw [blankAfter_append, step, blankAfter_false_of_notMem oneLine]

theorem Shape.blankAfter_eq_false
    {lineBlank : Bool}
    {kind : TriviaKind}
    {text rest : Text}
    (shape : Shape lineBlank rest ⟨.trivia kind, text⟩)
    (lineBlank' : Bool) :
    blankAfter lineBlank' text = false := by
  cases shape with
  | lineComment tail ends =>
      have oneLine : '\n' ∉ '/' :: '/' :: tail :=
        (Text.withoutReturn_firstLine_append_iff.1 ends).1
      exact
        Lexeme.blankAfter_eq_false (c := '/') (by decide)
          (fun member => oneLine (List.mem_cons_of_mem _ member)) lineBlank' []
  | blockComment front noClose =>
      have textEq :
          '/' :: '*' :: (front ++ ['*', '/']) = ('/' :: '*' :: (front ++ ['*'])) ++ '/' :: [] := by
        simp
      rw [textEq]
      exact Lexeme.blankAfter_eq_false (by decide) (by simp) lineBlank' _
  | directive directive after tail blank reads ends =>
      have oneLine : '\n' ∉ '#' :: tail := (Text.withoutReturn_firstLine_append_iff.1 ends).1
      exact
        Lexeme.blankAfter_eq_false (c := '#') (by decide)
          (fun member => oneLine (List.mem_cons_of_mem _ member)) lineBlank' []

/-! ## Changed lexemes -/

inductive Replaces : Lexeme → Lexeme → Prop where
  | same (lexeme : Lexeme) : Replaces lexeme lexeme
  | trivia (kind : TriviaKind) (c : Char) (tail tail' : Text)
      (opens : c = '/' ∨ c = '#')
      (shape : ∀ lineBlank rest rest',
        Shape lineBlank rest ⟨.trivia kind, c :: tail⟩ →
          (Text.firstLine rest = [] ∨ Text.firstLine rest = ['\r'] →
            Text.firstLine rest' = Text.firstLine rest) →
            Shape lineBlank rest' ⟨.trivia kind, c :: tail'⟩) :
      Replaces ⟨.trivia kind, c :: tail⟩ ⟨.trivia kind, c :: tail'⟩

/-- Behind no verbatim literal that a `"` follows does a further `"` come up. Here
`behind` is the text behind the lexemes. -/
def QuotesKept (behind behind' : Text) : List Lexeme → List Lexeme → Prop
  | lexeme :: rest, _ :: rest' =>
    (['@', '"'] <+: lexeme.text →
      (rest.flatMap Lexeme.text ++ behind).head? = some '"' →
        '"' ∈ (rest'.flatMap Lexeme.text ++ behind').tail →
          '"' ∈ (rest.flatMap Lexeme.text ++ behind).tail) ∧
      QuotesKept behind behind' rest rest'
  | _, _ => True

theorem sameUpToTrivia_flatMap
    {lexemes lexemes' : List Lexeme}
    {behind behind' : Text}
    (replaced : List.Forall₂ Replaces lexemes lexemes')
    (same : Text.SameUpToTrivia behind behind') :
    Text.SameUpToTrivia (lexemes.flatMap Lexeme.text ++ behind)
      (lexemes'.flatMap Lexeme.text ++ behind') := by
  induction replaced with
  | nil => exact same
  | cons first _ inductionHypothesis =>
      rw [List.flatMap_cons, List.flatMap_cons, List.append_assoc, List.append_assoc]
      cases first with
      | same => exact inductionHypothesis.append_left _
      | trivia kind c tail tail' opens =>
          exact Or.inr ⟨[], c, _, _, rfl, rfl, opens⟩

/-- The lexemes of a text in which comments and directives have changed are the
lexemes of the old text, changed in the same way. -/
theorem IsLexing.replaced
    {lineBlank : Bool}
    {lexemes lexemes' back back' : List Lexeme}
    (lexing : IsLexing lineBlank (lexemes ++ back))
    (replaced : List.Forall₂ Replaces lexemes lexemes')
    (quotes :
      QuotesKept (back.flatMap Lexeme.text) (back'.flatMap Lexeme.text) lexemes lexemes')
    (same : Text.SameUpToTrivia (back.flatMap Lexeme.text) (back'.flatMap Lexeme.text))
    (lexingBack : ∀ lineBlank, IsLexing lineBlank back → IsLexing lineBlank back') :
    IsLexing lineBlank (lexemes' ++ back') := by
  induction replaced generalizing lineBlank with
  | nil => exact lexingBack lineBlank lexing
  | cons first others inductionHypothesis =>
      rw [List.cons_append, isLexing_cons, List.flatMap_append] at lexing ⊢
      obtain ⟨leads, lexingRest⟩ := lexing
      obtain ⟨quotesHere, quotesRest⟩ := quotes
      have sameRest := sameUpToTrivia_flatMap others same
      cases first with
      | same lexeme =>
          exact
            ⟨(leads.shape.congr sameRest quotesHere).leads,
              inductionHypothesis lexingRest quotesRest⟩
      | trivia kind c tail tail' opens shape =>
          have shape' := shape _ _ _ leads.shape sameRest.firstLine_eq
          refine ⟨shape'.leads, ?_⟩
          rw [shape'.blankAfter_eq_false]
          rw [leads.shape.blankAfter_eq_false] at lexingRest
          exact inductionHypothesis lexingRest quotesRest

end Lexeme

end MacroRegions

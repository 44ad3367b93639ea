import MacroRegions.Proofs.Trivia.Relexing

/-!
Literals that swallow what is behind them.

A verbatim literal with a `"` right behind it ends there only for want of a further
`"`. When one comes up, the lexemes before the literal stay, and the literal goes on
at least as far as that `"`.
-/

namespace MacroRegions.Lexeme

private theorem quote_mem_take_of_verbatimLength?
    {text : Text}
    {length : Nat}
    (closed : verbatimLength? text = some length) :
    '"' ∈ text.take length := by
  fun_induction verbatimLength? text generalizing length with
  | case1 => simp at closed
  | case2 rest inductionHypothesis =>
      obtain rfl := Option.some.inj closed
      cases verbatimLength? rest <;> simp
  | case3 rest _ =>
      obtain rfl : 1 = length := by simpa using closed
      simp
  | case4 c rest _ _ inductionHypothesis =>
      obtain ⟨inner, later, rfl⟩ := Option.map_eq_some_iff.1 closed
      simp [inductionHypothesis later]

/-- A verbatim literal goes on behind its end when a further `"` comes up. -/
theorem exists_verbatimLength?_longer
    {tail rest rest' : Text}
    (closed : verbatimLength? (tail ++ rest) = some tail.length)
    (headEq : rest'.head? = some '"')
    (quote : '"' ∈ rest'.tail) :
    ∃ eaten left,
      rest' = eaten ++ left ∧
        2 ≤ eaten.count '"' ∧
        verbatimLength? (tail ++ rest') = some (tail ++ eaten).length := by
  obtain ⟨inside, rfl, _, goesOn⟩ := exists_verbatim_inside closed
  obtain ⟨behind, rfl⟩ := List.head?_eq_some_iff.1 headEq
  rw [List.tail_cons] at quote
  obtain ⟨length, later⟩ :=
    Option.ne_none_iff_exists'.1 (mt verbatimLength?_eq_none_iff.1 (not_not.2 quote))
  have longer : verbatimLength? ('"' :: '"' :: behind) = some (length + 2) := by
    simp [verbatimLength?, later]
  have fits := verbatimLength?_le later
  have inEaten := quote_mem_take_of_verbatimLength? later
  refine ⟨'"' :: behind.take length, behind.drop length, by simp, ?_, ?_⟩
  · have counted := List.count_pos_iff.2 inEaten
    rw [List.count_cons_self]
    omega
  · rw [List.append_assoc, List.singleton_append, goesOn _ _ longer]
    simp only [List.length_append, List.length_cons, List.length_nil, List.length_take,
      Option.some.injEq]
    omega

private theorem quotesKept_of_quote
    {behind behind' : Text}
    (quoted : ∀ text : Text, '"' ∈ (text ++ behind).tail) :
    ∀ front front' : List Lexeme, QuotesKept behind behind' front front'
  | [], _ => trivial
  | _ :: _, [] => trivial
  | _ :: front, _ :: front' =>
      ⟨fun _ _ _ => quoted _, quotesKept_of_quote quoted front front'⟩

private theorem Shape.exists_tail
    {lineBlank : Bool}
    {rest : Text}
    {literal : Lexeme}
    (shape : Shape lineBlank rest literal)
    (isVerbatim : ['@', '"'] <+: literal.text) :
    ∃ tail,
      literal = ⟨.literal, '@' :: '"' :: tail⟩ ∧
        (verbatimLength? (tail ++ rest)).getD (tail ++ rest).length = tail.length := by
  obtain ⟨behind, textEq⟩ := isVerbatim
  cases shape with
  | verbatim tail ends => exact ⟨tail, rfl, ends⟩
  | lineComment => simp at textEq
  | blockComment => simp at textEq
  | openComment => simp at textEq
  | directive => simp at textEq
  | string => simp at textEq
  | character => simp at textEq
  | plain => simp at textEq

theorem Shape.kind_of_verbatim
    {lineBlank : Bool}
    {rest : Text}
    {literal : Lexeme}
    (shape : Shape lineBlank rest literal)
    (isVerbatim : ['@', '"'] <+: literal.text) :
    literal.kind = .literal := by
  obtain ⟨tail, literalEq, _⟩ := shape.exists_tail isVerbatim
  rw [literalEq]

private theorem Shape.exists_verbatim
    {lineBlank : Bool}
    {rest : Text}
    {literal : Lexeme}
    (shape : Shape lineBlank rest literal)
    (isVerbatim : ['@', '"'] <+: literal.text)
    (nonempty : rest ≠ []) :
    ∃ tail,
      literal = ⟨.literal, '@' :: '"' :: tail⟩ ∧
        verbatimLength? (tail ++ rest) = some tail.length := by
  obtain ⟨tail, literalEq, ends⟩ := shape.exists_tail isVerbatim
  refine ⟨tail, literalEq, ?_⟩
  cases closed : verbatimLength? (tail ++ rest) with
  | none =>
      rw [closed, Option.getD_none, List.length_append] at ends
      exact absurd (List.eq_nil_of_length_eq_zero (by omega)) nonempty
  | some length => rw [← ends, closed, Option.getD_some]

/-- A `"` right behind a verbatim literal is the last one. -/
theorem Shape.quote_notMem_tail
    {lineBlank : Bool}
    {rest : Text}
    {literal : Lexeme}
    (shape : Shape lineBlank rest literal)
    (isVerbatim : ['@', '"'] <+: literal.text)
    (headEq : rest.head? = some '"') :
    '"' ∉ rest.tail := by
  obtain ⟨behind, rfl⟩ := List.head?_eq_some_iff.1 headEq
  obtain ⟨tail, _, closed⟩ := shape.exists_verbatim isVerbatim (by simp)
  obtain ⟨_, _, closes, _⟩ := exists_verbatim_inside closed
  exact verbatimLength?_quote_quote_eq_one_iff.1 closes

/-- The lexemes of a text in which comments and directives have changed and a
`"` has come up behind a verbatim literal that had no further one. -/
theorem IsLexing.exists_swallowed
    {lineBlank : Bool}
    {front front' back : List Lexeme}
    {literal : Lexeme}
    {behind : Text}
    (lexing : IsLexing lineBlank (front ++ literal :: back))
    (isVerbatim : ['@', '"'] <+: literal.text)
    (headEq : (back.flatMap Lexeme.text).head? = some '"')
    (replaced : List.Forall₂ Replaces front front')
    (same : Text.SameUpToTrivia (back.flatMap Lexeme.text) behind)
    (quote : '"' ∈ behind.tail) :
    ∃ literal' rest eaten,
      IsLexing lineBlank (front' ++ literal' :: rest) ∧
        literal'.kind = .literal ∧
        literal'.text = literal.text ++ eaten ∧
        behind = eaten ++ rest.flatMap Lexeme.text ∧
        2 ≤ eaten.count '"' := by
  have nonempty : back.flatMap Lexeme.text ≠ [] := by
    intro none
    simp [none] at headEq
  obtain ⟨lineBlank', leads, _⟩ := lexing.exists_back
  obtain ⟨tail, rfl, closed⟩ := leads.shape.exists_verbatim isVerbatim nonempty
  obtain ⟨eaten, left, rfl, quotes, longer⟩ :=
    exists_verbatimLength?_longer closed (same.head?_eq.trans headEq) quote
  -- the line is not blank behind the `@`, whatever it was before
  have blankEq :
      ∀ blank text, blankAfter blank ('@' :: text) = blankAfter false text := by
    intro blank text
    have visible : isBlank '@' = false := by decide
    simp [blankAfter, visible]
  have leads' :
      ∀ (blank : Bool) (rest : List Lexeme), rest.flatMap Lexeme.text = left →
        Leads blank ⟨.literal, '@' :: '"' :: (tail ++ eaten)⟩ (rest.flatMap Lexeme.text) := by
    rintro blank rest rfl
    refine (Shape.verbatim (tail ++ eaten) ?_).leads
    rw [List.append_assoc, longer, Option.getD_some]
  have restText :=
    flatMap_text_ofTextFrom (blankAfter false ('"' :: (tail ++ eaten))) left
  refine
    ⟨⟨.literal, '@' :: '"' :: (tail ++ eaten)⟩,
      ofTextFrom (blankAfter false ('"' :: (tail ++ eaten))) left, eaten, ?_, rfl, by simp,
      by rw [restText], quotes⟩
  refine lexing.replaced replaced (quotesKept_of_quote ?_ front front') ?_ ?_
  · intro text
    cases text with
    | nil => simp
    | cons c text => simp
  · rw [List.flatMap_cons, List.flatMap_cons, restText]
    have longerSame := same.append_left ('@' :: '"' :: tail)
    simpa using longerSame
  · intro blank _
    refine ⟨leads' blank _ restText, ?_⟩
    rw [blankEq]
    exact isLexing_ofTextFrom _ left

end MacroRegions.Lexeme

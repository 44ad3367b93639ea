import MacroRegions.Proofs.Source.Displacement
import MacroRegions.Proofs.Trivia.Relexing

/-!
Lexing one text behind another.

A lexeme looks no further than the end of its line, block comments and verbatim
literals apart. So behind a text that ends with a newline, has no `@` and closes its
block comments, lexing starts anew.
-/

namespace MacroRegions

def Trivia.behind (front : Text) (item : Trivia) : Trivia :=
  ⟨item.kind, item.span.behind front⟩

namespace Lexeme

variable {lineBlank : Bool} {lexeme : Lexeme} {rest more : Text}

/-- A newline is a lexeme of its own. -/
theorem leads_newline (lineBlank : Bool) (rest : Text) :
    Leads lineBlank ⟨.plain, ['\n']⟩ rest :=
  ⟨'\n', [], rfl, head_eq_plain_iff.2 (by simp)⟩

/-- A string literal stays on its line. -/
theorem newline_notMem_take_stringLength (text : Text) :
    '\n' ∉ text.take (stringLength text) := by
  fun_induction stringLength text <;> grind

/-- A character literal stays on its line. -/
theorem newline_notMem_take_characterLength (text : Text) :
    '\n' ∉ text.take (characterLength text) := by
  fun_cases characterLength text <;> grind

private theorem directiveAt?_append
    (newline : '\n' ∈ rest)
    (c : Char)
    (more : Text) :
    directiveAt? (c :: (rest ++ more)) = directiveAt? (c :: rest) := by
  rw [directiveAt?, ← List.cons_append,
    Text.firstLine_append_of_mem (List.mem_cons_of_mem c newline), directiveAt?]

/-- What a lexeme is does not depend on what stands behind a newline. -/
theorem Shape.append
    (shape : Shape lineBlank rest lexeme)
    (newline : '\n' ∈ rest)
    (noVerbatim : '@' ∉ lexeme.text) :
    Shape lineBlank (rest ++ more) lexeme := by
  have headEq : (rest ++ more).head? = rest.head? :=
    List.head?_append_of_ne_nil rest (List.ne_nil_of_mem newline)
  have lineEnds :
      ∀ line : Text,
        Text.withoutReturn (Text.firstLine (line ++ rest)) = line →
          Text.withoutReturn (Text.firstLine (line ++ (rest ++ more))) = line :=
    fun _ ends =>
      Text.withoutReturn_firstLine_append_congr
        (fun _ => Text.firstLine_append_of_mem newline more) ends
  cases shape with
  | lineComment tail ends => exact .lineComment tail (lineEnds ('/' :: '/' :: tail) ends)
  | blockComment front noClose => exact .blockComment front noClose
  | openComment inner noClose last => simp [last] at newline
  | directive directive after tail blank reads ends =>
      exact .directive directive after tail blank reads (lineEnds ('#' :: tail) ends)
  | string tail ends => exact .string tail (stringLength_append_congr headEq tail ends)
  | character tail ends => exact .character tail (characterLength_append_congr headEq tail ends)
  | verbatim tail ends => simp at noVerbatim
  | plain c alone =>
      obtain ⟨noComment, noDirective, noString, noCharacter, noQuote⟩ :=
        head_eq_plain_iff.1 alone
      refine .plain c (head_eq_plain_iff.2 ?_)
      rw [headEq, directiveAt?_append newline]
      exact ⟨noComment, noDirective, noString, noCharacter, noQuote⟩

/-- A lexeme that ends a text with a newline is just the newline, unless it is an
open comment or a verbatim literal. -/
theorem Shape.eq_newline
    (shape : Shape lineBlank [] lexeme)
    (ended : lexeme.text.getLast? = some '\n')
    (noVerbatim : '@' ∉ lexeme.text)
    (closed : lexeme.kind ≠ .openComment) :
    lexeme = ⟨.plain, ['\n']⟩ := by
  cases shape with
  | lineComment tail ends =>
      have oneLine : '\n' ∉ '/' :: '/' :: tail :=
        (Text.withoutReturn_firstLine_append_iff.1 ends).1
      exact absurd (List.mem_of_getLast? ended) oneLine
  | blockComment front noClose =>
      rw [← List.cons_append, ← List.cons_append, List.getLast?_append] at ended
      simp at ended
  | openComment inner noClose last => exact absurd rfl closed
  | directive directive after tail blank reads ends =>
      have oneLine : '\n' ∉ '#' :: tail := (Text.withoutReturn_firstLine_append_iff.1 ends).1
      exact absurd (List.mem_of_getLast? ended) oneLine
  | string tail ends =>
      rw [List.append_nil] at ends
      have oneLine := newline_notMem_take_stringLength tail
      rw [ends, List.take_length] at oneLine
      exact absurd (List.mem_of_getLast? ended) (by simpa using oneLine)
  | character tail ends =>
      rw [List.append_nil] at ends
      have oneLine := newline_notMem_take_characterLength tail
      rw [ends, List.take_length] at oneLine
      exact absurd (List.mem_of_getLast? ended) (by simpa using oneLine)
  | verbatim tail ends => simp at noVerbatim
  | plain c alone =>
      obtain rfl : c = '\n' := by simpa using ended
      rfl

/-- Behind lexemes that end with a newline, other lexemes stay what they are. -/
theorem IsLexing.append
    {front back : List Lexeme}
    (lexing : IsLexing lineBlank front)
    (lexingBack : IsLexing true back)
    (ended : (front.flatMap Lexeme.text).getLast? = some '\n')
    (noVerbatim : '@' ∉ front.flatMap Lexeme.text)
    (closed : ∀ lexeme ∈ front, lexeme.kind ≠ .openComment) :
    IsLexing lineBlank (front ++ back) := by
  induction front generalizing lineBlank with
  | nil => simp at ended
  | cons lexeme rest inductionHypothesis =>
      obtain ⟨leads, lexingRest⟩ := lexing
      rw [List.flatMap_cons, List.mem_append, not_or] at noVerbatim
      rw [List.cons_append, isLexing_cons, List.flatMap_append]
      by_cases isLast : rest = []
      · subst isLast
        obtain rfl :=
          leads.shape.eq_newline (by simpa using ended) noVerbatim.1
            (closed lexeme List.mem_cons_self)
        refine ⟨leads_newline lineBlank _, ?_⟩
        have blank : blankAfter lineBlank ['\n'] = true := by simp [blankAfter]
        rw [blank]
        exact lexingBack
      · have nonempty : rest.flatMap Lexeme.text ≠ [] := by
          obtain ⟨next, others, rfl⟩ := List.exists_cons_of_ne_nil isLast
          obtain ⟨⟨c, tail, textEq, _⟩, _⟩ := lexingRest
          simp [textEq]
        have endedRest : (rest.flatMap Lexeme.text).getLast? = some '\n' := by
          rwa [List.flatMap_cons, List.getLast?_append_of_ne_nil _ nonempty] at ended
        exact
          ⟨(leads.shape.append (List.mem_of_getLast? endedRest) noVerbatim.1).leads,
            inductionHypothesis lexingRest endedRest noVerbatim.2
              fun later member => closed later (List.mem_cons_of_mem _ member)⟩

/-- The lexemes of two texts, one behind the other. -/
theorem ofText_append
    {front : Text}
    (ended : front.getLast? = some '\n')
    (noVerbatim : '@' ∉ front)
    (closed : ∀ lexeme ∈ ofText front, lexeme.kind ≠ .openComment)
    (back : Text) :
    ofText (front ++ back) = ofText front ++ ofText back := by
  refine ofTextFrom_eq_iff.2 ⟨?_, ?_⟩
  · rw [List.flatMap_append, flatMap_text_ofText, flatMap_text_ofText]
  · have frontEq := flatMap_text_ofText front
    exact
      (isLexing_ofTextFrom true front).append (isLexing_ofTextFrom true back)
        (by rwa [← ofText, frontEq]) (by rwa [← ofText, frontEq]) closed

end Lexeme

namespace Trivia

theorem ofLexemesFrom_append (offset : Nat) (front back : List Lexeme) :
    ofLexemesFrom offset (front ++ back) =
      ofLexemesFrom offset front ++
        ofLexemesFrom (offset + Text.byteSize (front.flatMap Lexeme.text)) back := by
  induction front generalizing offset with
  | nil => rfl
  | cons lexeme rest inductionHypothesis =>
      rw [List.cons_append, ofLexemesFrom, ofLexemesFrom, inductionHypothesis,
        List.flatMap_cons, Text.byteSize_append, Nat.add_assoc]
      split <;> rfl

theorem ofLexemesFrom_behind (front : Text) (offset : Nat) (lexemes : List Lexeme) :
    ofLexemesFrom (offset + Text.byteSize front) lexemes =
      (ofLexemesFrom offset lexemes).map (behind front) := by
  induction lexemes generalizing offset with
  | nil => rfl
  | cons lexeme rest inductionHypothesis =>
      rw [ofLexemesFrom, ofLexemesFrom, Nat.add_right_comm, inductionHypothesis]
      split <;> rfl

/-- The trivia of two texts, one behind the other. -/
theorem extract_append
    {front : Text}
    (ended : front.getLast? = some '\n')
    (noVerbatim : '@' ∉ front)
    (closed : ∀ lexeme ∈ Lexeme.ofText front, lexeme.kind ≠ .openComment)
    (back : Text) :
    extract (front ++ back) = extract front ++ (extract back).map (behind front) := by
  have laterEq := ofLexemesFrom_behind front 0 (Lexeme.ofText back)
  rw [extract, Lexeme.ofText_append ended noVerbatim closed, ofLexemesFrom_append,
    Lexeme.flatMap_text_ofText, laterEq, extract, extract]

end Trivia

end MacroRegions

import MacroRegions.Trivia.Basic

/-!
The lexemes of a source text in a language of the C family, and the trivia
among them.

A text is cut into lexemes just finely enough to tell comments and region
directives from literals that look like them. Lexing never fails, so it also
works on a text that is no program, and the lexemes together are the text.
-/

namespace MacroRegions

/-- What a lexeme is. An open comment is a `/*` that is never closed, with the rest of
the text. A literal may be unfinished. -/
inductive Lexeme.Kind where
  | trivia (kind : TriviaKind)
  | openComment
  | literal
  | plain
deriving DecidableEq, Repr, Inhabited

structure Lexeme where
  kind : Lexeme.Kind
  text : Text
deriving DecidableEq, Repr, Inhabited

namespace Lexeme

/-! ## How far a lexeme goes

Each of these counts characters behind the opening delimiter of a lexeme.
-/

/-- Length of a string literal behind its `"`, up to and with the closing one.
A backslash takes the next character along. A literal that meets the end of
its line or of the text is unfinished and ends there. -/
def stringLength : Text → Nat
  | [] => 0
  | '"' :: _ => 1
  | '\n' :: _ => 0
  | ['\\'] => 1
  | '\\' :: '\n' :: _ => 1
  | '\\' :: _ :: rest => stringLength rest + 2
  | _ :: rest => stringLength rest + 1

/-- Length of a character literal behind its apostrophe. It holds one
character or an escaped one; an unfinished literal ends before the first
character that does not fit. -/
def characterLength : Text → Nat
  | [] => 0
  | '\'' :: _ => 0
  | '\n' :: _ => 0
  | ['\\'] => 1
  | '\\' :: '\n' :: _ => 1
  | '\\' :: _ :: '\'' :: _ => 3
  | '\\' :: _ :: _ => 2
  | _ :: '\'' :: _ => 2
  | _ :: _ => 1

/-- Length of a verbatim literal behind its `@"`, if some `"` can close it. A
doubled `"` stands for one and closes the literal only when no later one
does. -/
def verbatimLength? : Text → Option Nat
  | [] => none
  | '"' :: '"' :: rest =>
    some (match verbatimLength? rest with
      | some length => length + 2
      | none => 1)
  | '"' :: _ => some 1
  | _ :: rest => (verbatimLength? rest).map (· + 1)

def blockCommentLength? : Text → Option Nat
  | [] => none
  | '*' :: '/' :: _ => some 2
  | _ :: rest => (blockCommentLength? rest).map (· + 1)

/-- Length of what a line holds, one carriage return at its end left out. -/
def lineLength (text : Text) : Nat :=
  (Text.withoutReturn (Text.firstLine text)).length

def directiveAt? (text : Text) : Option TriviaKind :=
  (Directive.read? (Text.withoutReturn (Text.firstLine text))).map (·.1.triviaKind)

/-- The kind of the lexeme at `c`, and how many characters of `rest` belong to
it. A directive must be the first thing on its line. -/
def head (lineBlank : Bool) (c : Char) (rest : Text) : Kind × Nat :=
  match c, rest with
  | '/', '/' :: _ => (.trivia .lineComment, lineLength (c :: rest) - 1)
  | '/', '*' :: inner =>
    match blockCommentLength? inner with
    | some length => (.trivia .blockComment, length + 1)
    | none => (.openComment, rest.length)
  | '#', _ =>
    if lineBlank then
      match directiveAt? (c :: rest) with
      | some kind => (.trivia kind, lineLength (c :: rest) - 1)
      | none => (.plain, 0)
    else
      (.plain, 0)
  | '"', _ => (.literal, stringLength rest)
  | '\'', _ => (.literal, characterLength rest)
  | '@', '"' :: inner => (.literal, (verbatimLength? inner).getD inner.length + 1)
  | _, _ => (.plain, 0)

def blankAfter (lineBlank : Bool) (text : Text) : Bool :=
  text.foldl (fun blank c => c = '\n' || (blank && isBlank c)) lineBlank

def ofTextFrom (lineBlank : Bool) : Text → List Lexeme
  | [] => []
  | c :: rest =>
    let (kind, extra) := head lineBlank c rest
    let text := c :: rest.take extra
    ⟨kind, text⟩ :: ofTextFrom (blankAfter lineBlank text) (rest.drop extra)
termination_by text => text.length
decreasing_by
  simp only [List.length_drop, List.length_cons]
  omega

def ofText (text : Text) : List Lexeme :=
  ofTextFrom true text

theorem flatMap_text_ofTextFrom (lineBlank : Bool) (text : Text) :
    (ofTextFrom lineBlank text).flatMap Lexeme.text = text := by
  fun_induction ofTextFrom lineBlank text with
  | case1 => rfl
  | case2 lineBlank c rest kind extra headEq piece inductionHypothesis =>
      rw [List.flatMap_cons, inductionHypothesis]
      simp [piece, List.take_append_drop]

/-- Lexing loses nothing: the lexemes of a text are the text. -/
theorem flatMap_text_ofText (text : Text) :
    (ofText text).flatMap Lexeme.text = text :=
  flatMap_text_ofTextFrom true text

theorem text_ne_nil_of_mem_ofTextFrom
    {lineBlank : Bool}
    {text : Text}
    {lexeme : Lexeme}
    (member : lexeme ∈ ofTextFrom lineBlank text) :
    lexeme.text ≠ [] := by
  fun_induction ofTextFrom lineBlank text with
  | case1 => simp at member
  | case2 lineBlank c rest kind extra headEq piece inductionHypothesis =>
      rcases List.mem_cons.1 member with rfl | later
      · simp [piece]
      · exact inductionHypothesis later

end Lexeme

namespace Trivia

def ofLexemesFrom (offset : Nat) : List Lexeme → List Trivia
  | [] => []
  | lexeme :: rest =>
    let stop := offset + Text.byteSize lexeme.text
    match lexeme.kind with
    | .trivia kind => ⟨kind, offset, stop⟩ :: ofLexemesFrom stop rest
    | _ => ofLexemesFrom stop rest

/-- The comments and region directives of a text, in order. -/
def extract (text : Text) : List Trivia :=
  ofLexemesFrom 0 (Lexeme.ofText text)

end Trivia

end MacroRegions

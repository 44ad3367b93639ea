import MacroRegions.Proofs.Marker.Order
import MacroRegions.Proofs.Marker.Outline
import MacroRegions.Proofs.Source.Lines
import MacroRegions.Proofs.Trivia.Relexing
import MacroRegions.Proofs.Update.Edits

/-!
Texts in which location tags have been written.

A text is rewritten lexeme by lexeme: a comment or a directive that holds a marker
gets the tag that the marker should have, and every other lexeme stays. The rewritten
lexemes are the lexemes of the rewritten text, its markers are those of the old text
with the new tags, and the edits between the markers make it.
-/

namespace MacroRegions

namespace Lexeme

def item? (source : Source) (offset : Nat) (lexeme : Lexeme) : Option PairingItem :=
  match lexeme.kind with
  | .trivia kind =>
    PairingItem.ofPiece? kind
      (source.positionOf ⟨offset, offset + Text.byteSize lexeme.text⟩)
      ⟨offset, lexeme.text⟩
  | _ => none

def itemsFrom (source : Source) (offset : Nat) : List Lexeme → List PairingItem
  | [] => []
  | lexeme :: rest =>
    (lexeme.item? source offset).toList ++
      itemsFrom source (offset + Text.byteSize lexeme.text) rest

theorem item?_eq_some
    {source : Source}
    {offset : Nat}
    {lexeme : Lexeme}
    {item : PairingItem}
    (isItem : lexeme.item? source offset = some item) :
    ∃ kind,
      lexeme.kind = .trivia kind ∧
        PairingItem.ofPiece? kind
            (source.positionOf ⟨offset, offset + Text.byteSize lexeme.text⟩)
            ⟨offset, lexeme.text⟩ =
          some item := by
  unfold item? at isItem
  split at isItem
  next kind kindEq => exact ⟨kind, kindEq, isItem⟩
  next => simp at isItem

end Lexeme

theorem PairingItem.ofTrivia?_eq_bind (source : Source) (item : Trivia) :
    PairingItem.ofTrivia? source item =
      (source.slice? item.span).bind fun text =>
        PairingItem.ofPiece? item.kind (source.positionOf item.span) ⟨item.span.start, text⟩ := by
  cases sliced : source.slice? item.span with
  | none => simp [PairingItem.ofTrivia?, Candidate.ofTrivia?, sliced]
  | some text =>
      cases found : Candidate.contentOf? item.kind ⟨item.span.start, text⟩ with
      | none =>
          simp [PairingItem.ofTrivia?, PairingItem.ofPiece?, Candidate.ofTrivia?, sliced, found]
      | some pair =>
          simp [PairingItem.ofTrivia?, PairingItem.ofPiece?, Candidate.ofTrivia?, sliced, found]

theorem PairingItem.place_of_ofPiece?
    {kind : TriviaKind}
    {position : Position}
    {whole : Piece}
    {found : Marker}
    (isMarker : PairingItem.ofPiece? kind position whole = some (.marker found)) :
    found.form = MarkerForm.ofTriviaKind kind ∧ found.position = position := by
  obtain ⟨content, candidateKind, keyword, word, _, _, _, rfl⟩ :=
    PairingItem.ofPiece?_eq_marker_iff.1 isMarker
  exact ⟨rfl, rfl⟩

theorem Lexeme.pairingItems_ofLexemesFrom
    {source : Source}
    {front : Text}
    {lexemes : List Lexeme}
    (split : source.text = front ++ lexemes.flatMap Lexeme.text) :
    Document.pairingItems source (Trivia.ofLexemesFrom (Text.byteSize front) lexemes) =
      itemsFrom source (Text.byteSize front) lexemes := by
  induction lexemes generalizing front with
  | nil => rfl
  | cons lexeme rest inductionHypothesis =>
      have split' : source.text = (front ++ lexeme.text) ++ rest.flatMap Lexeme.text := by
        rw [split, List.flatMap_cons, List.append_assoc]
      have later := inductionHypothesis split'
      rw [Text.byteSize_append, Document.pairingItems_eq_filterMap] at later
      have sliced :
          source.slice?
              ⟨Text.byteSize front, Text.byteSize front + Text.byteSize lexeme.text⟩ =
            some lexeme.text :=
        Text.slice?_eq_some_iff.2 ⟨front, rest.flatMap Lexeme.text, split', rfl, rfl⟩
      rw [Document.pairingItems_eq_filterMap, Trivia.ofLexemesFrom, itemsFrom, ← later, item?]
      cases kindEq : lexeme.kind with
      | trivia kind =>
          dsimp only
          rw [List.filterMap_cons, PairingItem.ofTrivia?_eq_bind, sliced, Option.bind_some]
          cases PairingItem.ofPiece? kind _ _ <;> rfl
      | openComment => rfl
      | literal => rfl
      | plain => rfl

namespace Lexeme

/-- Lexemes of which the first begins at an offset, and the lexemes that come of
them when every marker gets the tag that `tagOf` names for it. -/
inductive Rewritten (source : Source) (tagOf : Marker → Option LocationTag) :
    Nat → List Lexeme → List Lexeme → Prop where
  | nil (offset : Nat) : Rewritten source tagOf offset [] []
  | kept {offset : Nat} {lexeme : Lexeme} {rest rest' : List Lexeme}
      (current : ∀ found,
        lexeme.item? source offset = some (.marker found) → tagOf found = found.tag)
      (others : Rewritten source tagOf (offset + Text.byteSize lexeme.text) rest rest') :
      Rewritten source tagOf offset (lexeme :: rest) (lexeme :: rest')
  | changed {offset : Nat} {kind : TriviaKind} {text text' : Text} {found : Marker}
      {tag : LocationTag} {rest rest' : List Lexeme}
      (isMarker : item? source offset ⟨.trivia kind, text⟩ = some (.marker found))
      (tagEq : tagOf found = some tag)
      (stale : found.tag ≠ some tag)
      (opens : text.head? = some '/' ∨ text.head? = some '#')
      (rewrites : found.Rewrites tag kind offset text text')
      (others : Rewritten source tagOf (offset + Text.byteSize text) rest rest') :
      Rewritten source tagOf offset (⟨.trivia kind, text⟩ :: rest)
        (⟨.trivia kind, text'⟩ :: rest')

variable {source : Source} {tagOf : Marker → Option LocationTag} {offset : Nat}
  {lexemes lexemes' : List Lexeme}

def markersFrom (source : Source) (offset : Nat) (lexemes : List Lexeme) : List Marker :=
  PairingItem.markers (itemsFrom source offset lexemes)

theorem mem_markersFrom_cons
    {lexeme : Lexeme}
    {rest : List Lexeme}
    {found : Marker} :
    found ∈ markersFrom source offset (lexeme :: rest) ↔
      lexeme.item? source offset = some (.marker found) ∨
        found ∈ markersFrom source (offset + Text.byteSize lexeme.text) rest := by
  simp only [markersFrom, itemsFrom, PairingItem.markers, List.filterMap_append, List.mem_append]
  refine or_congr_left ?_
  cases lexeme.item? source offset with
  | none => simp
  | some item => cases item <;> simp [PairingItem.marker?, eq_comm]

theorem itemsFrom_append
    (source : Source)
    (offset : Nat)
    (front back : List Lexeme) :
    itemsFrom source offset (front ++ back) =
      itemsFrom source offset front ++
        itemsFrom source (offset + Text.byteSize (front.flatMap Lexeme.text)) back := by
  induction front generalizing offset with
  | nil => simp [itemsFrom]
  | cons lexeme rest inductionHypothesis =>
      rw [List.cons_append, itemsFrom, itemsFrom, inductionHypothesis, List.flatMap_cons,
        Text.byteSize_append, Nat.add_assoc, List.append_assoc]

theorem markersFrom_append
    (source : Source)
    (offset : Nat)
    (front back : List Lexeme) :
    markersFrom source offset (front ++ back) =
      markersFrom source offset front ++
        markersFrom source (offset + Text.byteSize (front.flatMap Lexeme.text)) back := by
  rw [markersFrom, itemsFrom_append, PairingItem.markers, List.filterMap_append]
  rfl

theorem Shape.opens
    {lineBlank : Bool}
    {kind : TriviaKind}
    {text rest : Text}
    (shape : Shape lineBlank rest ⟨.trivia kind, text⟩) :
    text.head? = some '/' ∨ text.head? = some '#' := by
  cases shape with
  | lineComment => exact Or.inl rfl
  | blockComment => exact Or.inl rfl
  | directive => exact Or.inr rfl

/-- Lexemes can be rewritten if the tags to be written can be read. -/
theorem exists_rewritten
    {lineBlank : Bool}
    (lexing : IsLexing lineBlank lexemes)
    (writable : ∀ found ∈ markersFrom source offset lexemes,
      tagOf found ≠ found.tag → ∃ tag, tagOf found = some tag ∧ tag.IsWritable) :
    ∃ lexemes', Rewritten source tagOf offset lexemes lexemes' := by
  induction lexemes generalizing lineBlank offset with
  | nil => exact ⟨[], .nil offset⟩
  | cons lexeme rest inductionHypothesis =>
      obtain ⟨leads, lexingRest⟩ := lexing
      obtain ⟨rest', others⟩ :=
        inductionHypothesis lexingRest fun found member =>
          writable found (mem_markersFrom_cons.2 (Or.inr member))
      by_cases current : ∀ found,
          lexeme.item? source offset = some (.marker found) → tagOf found = found.tag
      · exact ⟨lexeme :: rest', .kept current others⟩
      · obtain ⟨found, isMarker, stale⟩ :
            ∃ found, lexeme.item? source offset = some (.marker found) ∧
              tagOf found ≠ found.tag := by
          simpa using current
        obtain ⟨tag, tagEq, tagWritable⟩ :=
          writable found (mem_markersFrom_cons.2 (Or.inl isMarker)) stale
        obtain ⟨kind, kindEq, isPiece⟩ := item?_eq_some isMarker
        obtain ⟨lexemeKind, text⟩ := lexeme
        obtain rfl : lexemeKind = .trivia kind := kindEq
        obtain ⟨text', rewrites⟩ := exists_rewrites leads.shape isPiece tagWritable
        rw [tagEq] at stale
        exact
          ⟨_, .changed isMarker tagEq (Ne.symm stale) leads.shape.opens rewrites others⟩

/-- What comes of some lexemes does not depend on those behind them. -/
theorem Rewritten.exists_split
    {front back : List Lexeme}
    (rewritten : Rewritten source tagOf offset (front ++ back) lexemes') :
    ∃ front' back',
      lexemes' = front' ++ back' ∧
        Rewritten source tagOf offset front front' ∧
        Rewritten source tagOf (offset + Text.byteSize (front.flatMap Lexeme.text)) back
          back' := by
  induction front generalizing offset lexemes' with
  | nil => exact ⟨[], lexemes', rfl, .nil offset, by simpa using rewritten⟩
  | cons lexeme rest inductionHypothesis =>
      rw [List.flatMap_cons, Text.byteSize_append, ← Nat.add_assoc]
      cases rewritten with
      | kept current others =>
          obtain ⟨front', back', rfl, rewrittenFront, rewrittenBack⟩ :=
            inductionHypothesis others
          exact ⟨lexeme :: front', back', rfl, .kept current rewrittenFront, rewrittenBack⟩
      | changed isMarker tagEq stale opens rewrites others =>
          obtain ⟨front', back', rfl, rewrittenFront, rewrittenBack⟩ :=
            inductionHypothesis others
          exact
            ⟨_ :: front', back', rfl,
              .changed isMarker tagEq stale opens rewrites rewrittenFront, rewrittenBack⟩

private theorem count_newline_of_rewrites
    {found : Marker}
    {tag : LocationTag}
    {kind : TriviaKind}
    {text text' : Text}
    (rewrites : found.Rewrites tag kind offset text text') :
    text'.count '\n' = text.count '\n' := by
  obtain ⟨before, old, new, after, rfl, rfl, _, oldLine, newLine, _⟩ := rewrites.edit
  simp [List.count_eq_zero.2 oldLine, List.count_eq_zero.2 newLine]

/-- No line is added or lost. -/
theorem Rewritten.count_newline (rewritten : Rewritten source tagOf offset lexemes lexemes') :
    (lexemes'.flatMap Lexeme.text).count '\n' = (lexemes.flatMap Lexeme.text).count '\n' := by
  induction rewritten with
  | nil => rfl
  | kept _ _ inductionHypothesis =>
      rw [List.flatMap_cons, List.flatMap_cons, List.count_append, List.count_append,
        inductionHypothesis]
  | changed _ _ _ _ rewrites _ inductionHypothesis =>
      rw [List.flatMap_cons, List.flatMap_cons, List.count_append, List.count_append,
        inductionHypothesis, count_newline_of_rewrites rewrites]

private theorem outline_positionOf_congr
    {source source' : Source}
    {front front' text text' back back' : Text}
    (split : source.text = front ++ (text ++ back))
    (split' : source'.text = front' ++ (text' ++ back'))
    (frontLines : front'.count '\n' = front.count '\n')
    (textLines : text'.count '\n' = text.count '\n') :
    (source'.positionOf
        ⟨Text.byteSize front', Text.byteSize front' + Text.byteSize text'⟩).outline =
      (source.positionOf
        ⟨Text.byteSize front, Text.byteSize front + Text.byteSize text⟩).outline := by
  have startLine := Source.line_pointAt split
  have startLine' := Source.line_pointAt split'
  rw [← List.append_assoc] at split split'
  have stopLine := Source.line_pointAt split
  have stopLine' := Source.line_pointAt split'
  rw [Text.byteSize_append] at stopLine stopLine'
  simp only [Source.positionOf, Position.outline, Point.outline, startLine, startLine', stopLine,
    stopLine', List.count_append, frontLines, textLines]

private theorem item?_outline_congr
    {source source' : Source}
    {offset offset' : Nat}
    {lexeme : Lexeme}
    (positionEq :
      (source'.positionOf ⟨offset', offset' + Text.byteSize lexeme.text⟩).outline =
        (source.positionOf ⟨offset, offset + Text.byteSize lexeme.text⟩).outline) :
    (lexeme.item? source' offset').map (PairingItem.mapMarker Marker.outline) =
      (lexeme.item? source offset).map (PairingItem.mapMarker Marker.outline) := by
  obtain ⟨kind, text⟩ := lexeme
  cases kind with
  | trivia kind => exact PairingItem.ofPiece?_outline_congr positionEq _ _ _
  | openComment => rfl
  | literal => rfl
  | plain => rfl

/-- The markers of a rewritten text are those of the old one with the new
tags. -/
theorem Rewritten.outline_items
    {source' : Source}
    {front front' back back' : Text}
    (rewritten : Rewritten source tagOf offset lexemes lexemes')
    (offsetEq : offset = Text.byteSize front)
    (split : source.text = front ++ (lexemes.flatMap Lexeme.text ++ back))
    (split' : source'.text = front' ++ (lexemes'.flatMap Lexeme.text ++ back'))
    (lines : front'.count '\n' = front.count '\n') :
    (itemsFrom source' (Text.byteSize front') lexemes').map
        (PairingItem.mapMarker Marker.outline) =
      (itemsFrom source offset lexemes).map
        (PairingItem.mapMarker fun found => (found.withTag (tagOf found)).outline) := by
  induction rewritten generalizing front front' with
  | nil => rfl
  | @kept offset lexeme rest rest' current others inductionHypothesis =>
      subst offsetEq
      rw [List.flatMap_cons, List.append_assoc] at split split'
      have positionEq := outline_positionOf_congr split split' lines rfl
      have sameItem :
          (lexeme.item? source' (Text.byteSize front')).map
              (PairingItem.mapMarker Marker.outline) =
            (lexeme.item? source (Text.byteSize front)).map
              (PairingItem.mapMarker fun found => (found.withTag (tagOf found)).outline) := by
        rw [item?_outline_congr positionEq]
        cases itemEq : lexeme.item? source (Text.byteSize front) with
        | none => rfl
        | some item =>
            cases item with
            | plainRegion => rfl
            | marker found =>
                simp only [Option.map_some, PairingItem.mapMarker, current found itemEq]
                rfl
      rw [← List.append_assoc] at split split'
      have later :=
        inductionHypothesis (Text.byteSize_append front lexeme.text).symm split split'
          (by rw [List.count_append, List.count_append, lines])
      rw [Text.byteSize_append] at later
      rw [itemsFrom, itemsFrom, List.map_append, List.map_append, later,
        ← Option.toList_map, ← Option.toList_map, sameItem]
  | @changed offset kind text text' found tag rest rest' isMarker tagEq stale opens rewrites
      others inductionHypothesis =>
      subst offsetEq
      rw [List.flatMap_cons, List.append_assoc] at split split'
      have textLines := count_newline_of_rewrites rewrites
      have positionEq := outline_positionOf_congr split split' lines textLines
      obtain ⟨found', isMarker', foundPosition, retagged⟩ :=
        rewrites.reads (Text.byteSize front')
          (source'.positionOf
            ⟨Text.byteSize front', Text.byteSize front' + Text.byteSize text'⟩)
      have isItem' :
          item? source' (Text.byteSize front') ⟨.trivia kind, text'⟩ =
            some (.marker found') :=
        isMarker'
      have oldPosition := (PairingItem.place_of_ofPiece? isMarker).2
      have outlineEq : found'.outline = (found.withTag (tagOf found)).outline := by
        rw [tagEq]
        refine retagged.outline_eq ?_
        rw [foundPosition, positionEq, oldPosition]
      rw [← List.append_assoc] at split split'
      have later :=
        inductionHypothesis (Text.byteSize_append front text).symm split split'
          (by rw [List.count_append, List.count_append, lines, textLines])
      rw [Text.byteSize_append] at later
      rw [itemsFrom, itemsFrom, List.map_append, List.map_append, later, isMarker, isItem']
      simp [PairingItem.mapMarker, outlineEq]

/-! ## Lexing a rewritten text -/

theorem cons_eq_of_rewrites
    {found : Marker}
    {tag : LocationTag}
    {kind : TriviaKind}
    {text text' : Text}
    (opens : text.head? = some '/' ∨ text.head? = some '#')
    (rewrites : found.Rewrites tag kind offset text text') :
    ∃ c tail tail', (c = '/' ∨ c = '#') ∧ text = c :: tail ∧ text' = c :: tail' := by
  obtain ⟨before, old, new, after, rfl, rfl, nonempty, _⟩ := rewrites.edit
  obtain ⟨c, rest, rfl⟩ := List.exists_cons_of_ne_nil nonempty
  exact ⟨c, _, _, by simpa using opens, rfl, rfl⟩

/-- The markers that a tag closing a block comment would be written into are
none. -/
def TagsFit (tagOf : Marker → Option LocationTag) (found : Marker) : Prop :=
  found.form = .blockComment →
    ∀ tag, tagOf found = some tag → found.tag ≠ some tag →
      ∀ path, tag.filePath = some path → NoClose path

theorem Rewritten.replaces
    (rewritten : Rewritten source tagOf offset lexemes lexemes')
    (fit : ∀ found ∈ markersFrom source offset lexemes, TagsFit tagOf found) :
    List.Forall₂ Replaces lexemes lexemes' := by
  induction rewritten with
  | nil => exact .nil
  | kept _ _ inductionHypothesis =>
      refine .cons (.same _) (inductionHypothesis ?_)
      exact fun found member => fit found (mem_markersFrom_cons.2 (Or.inr member))
  | @changed offset kind text text' found tag rest rest' isMarker tagEq stale opens rewrites
      others inductionHypothesis =>
      refine .cons ?_ (inductionHypothesis ?_)
      · have foundFits := fit found (mem_markersFrom_cons.2 (Or.inl isMarker))
        have shape := rewrites.shape
        obtain ⟨c, tail, tail', isOpening, rfl, rfl⟩ := cons_eq_of_rewrites opens rewrites
        refine .trivia kind c tail tail' isOpening ?_
        intro lineBlank rest rest' shapeBefore sameLine
        refine shape lineBlank rest rest' shapeBefore sameLine ?_
        intro isBlock path pathEq
        have isBlockForm : found.form = .blockComment := by
          rw [(PairingItem.place_of_ofPiece? isMarker).1, isBlock]
          rfl
        exact foundFits isBlockForm tag tagEq stale path pathEq
      · exact fun found member => fit found (mem_markersFrom_cons.2 (Or.inr member))

/-- A `"` that comes up in a rewritten text is written with a tag. -/
theorem Rewritten.exists_quote
    (rewritten : Rewritten source tagOf offset lexemes lexemes')
    (noQuote : '"' ∉ lexemes.flatMap Lexeme.text)
    (quote : '"' ∈ lexemes'.flatMap Lexeme.text) :
    ∃ found ∈ markersFrom source offset lexemes, ∃ tag,
      tagOf found = some tag ∧ found.tag ≠ some tag ∧ '"' ∈ tag.render := by
  induction rewritten with
  | nil => simp at quote
  | kept _ _ inductionHypothesis =>
      rw [List.flatMap_cons, List.mem_append, not_or] at noQuote
      rw [List.flatMap_cons, List.mem_append] at quote
      obtain ⟨found, member, later⟩ :=
        inductionHypothesis noQuote.2 (quote.resolve_left noQuote.1)
      exact ⟨found, mem_markersFrom_cons.2 (Or.inr member), later⟩
  | @changed offset kind text text' found tag rest rest' isMarker tagEq stale opens rewrites
      others inductionHypothesis =>
      rw [List.flatMap_cons, List.mem_append, not_or] at noQuote
      rw [List.flatMap_cons, List.mem_append] at quote
      rcases quote with here | behind
      · refine ⟨found, mem_markersFrom_cons.2 (Or.inl isMarker), tag, tagEq, stale, ?_⟩
        obtain ⟨before, old, new, after, rfl, rfl, _, _, _, written, _⟩ := rewrites.edit
        simp only [List.mem_append, not_or] at here noQuote
        have inNew : '"' ∈ new := by
          rcases here with (inBefore | inNew) | inAfter
          · exact absurd inBefore noQuote.1.1.1
          · exact inNew
          · exact absurd inAfter noQuote.1.2
        rcases written with rfl | rfl
        · exact inNew
        · simpa using inNew
      · obtain ⟨found, member, later⟩ := inductionHypothesis noQuote.2 behind
        exact ⟨found, mem_markersFrom_cons.2 (Or.inr member), later⟩

private theorem Rewritten.exists_quote_of_tail
    (rewritten : Rewritten source tagOf offset lexemes lexemes')
    (headEq : (lexemes.flatMap Lexeme.text).head? = some '"')
    (noQuote : '"' ∉ (lexemes.flatMap Lexeme.text).tail)
    (quote : '"' ∈ (lexemes'.flatMap Lexeme.text).tail) :
    ∃ found ∈ markersFrom source offset lexemes, ∃ tag,
      tagOf found = some tag ∧ found.tag ≠ some tag ∧ '"' ∈ tag.render := by
  induction rewritten with
  | nil => simp at headEq
  | @kept offset lexeme rest rest' current others inductionHypothesis =>
      rw [List.flatMap_cons] at headEq noQuote quote
      cases textEq : lexeme.text with
      | nil =>
          rw [textEq, List.nil_append] at headEq noQuote quote
          obtain ⟨found, member, later⟩ := inductionHypothesis headEq noQuote quote
          exact ⟨found, mem_markersFrom_cons.2 (Or.inr member), later⟩
      | cons c tail =>
          rw [textEq, List.cons_append, List.tail_cons, List.mem_append] at noQuote quote
          rw [not_or] at noQuote
          obtain ⟨found, member, later⟩ :=
            others.exists_quote noQuote.2 (quote.resolve_left noQuote.1)
          exact ⟨found, mem_markersFrom_cons.2 (Or.inr member), later⟩
  | changed _ _ _ opens _ _ _ =>
      rw [List.flatMap_cons, List.head?_append] at headEq
      rcases opens with slash | hash
      · simp [slash] at headEq
      · simp [hash] at headEq

/-- Where the last `"` of a text begins right behind a verbatim literal, no
further `"` is written with a tag. -/
def QuotesFit
    (source : Source)
    (tagOf : Marker → Option LocationTag)
    (offset : Nat)
    (lexemes : List Lexeme) :
    Prop :=
  ∀ front literal back,
    lexemes = front ++ literal :: back →
      ['@', '"'] <+: literal.text →
        (back.flatMap Lexeme.text).head? = some '"' →
          '"' ∉ (back.flatMap Lexeme.text).tail →
            ∀ found ∈
              markersFrom source
                (offset + Text.byteSize ((front ++ [literal]).flatMap Lexeme.text)) back,
              ∀ tag, tagOf found = some tag → found.tag ≠ some tag → '"' ∉ tag.render

theorem QuotesFit.of_cons
    {lexeme : Lexeme}
    {rest : List Lexeme}
    (fit : QuotesFit source tagOf offset (lexeme :: rest)) :
    QuotesFit source tagOf (offset + Text.byteSize lexeme.text) rest := by
  intro front literal back split isVerbatim headEq noQuote found member
  refine
    fit (lexeme :: front) literal back (by rw [split, List.cons_append]) isVerbatim headEq
      noQuote found ?_
  rw [List.cons_append, List.flatMap_cons, Text.byteSize_append, ← Nat.add_assoc]
  exact member

private theorem Rewritten.quotesKept
    (rewritten : Rewritten source tagOf offset lexemes lexemes')
    (fit : QuotesFit source tagOf offset lexemes) :
    QuotesKept [] [] lexemes lexemes' := by
  have here : ∀ {offset : Nat} {lexeme : Lexeme} {rest rest' : List Lexeme},
      QuotesFit source tagOf offset (lexeme :: rest) →
        Rewritten source tagOf (offset + Text.byteSize lexeme.text) rest rest' →
          ['@', '"'] <+: lexeme.text →
            (rest.flatMap Lexeme.text ++ []).head? = some '"' →
              '"' ∈ (rest'.flatMap Lexeme.text ++ []).tail →
                '"' ∈ (rest.flatMap Lexeme.text ++ []).tail := by
    intro offset lexeme rest rest' fit others isVerbatim headEq quote
    rw [List.append_nil] at headEq quote ⊢
    by_contra noQuote
    obtain ⟨found, member, tag, tagEq, stale, inTag⟩ :=
      others.exists_quote_of_tail headEq noQuote quote
    refine fit [] lexeme rest rfl isVerbatim headEq noQuote found ?_ tag tagEq stale inTag
    simpa using member
  induction rewritten with
  | nil => trivial
  | kept _ others inductionHypothesis =>
      exact ⟨here fit others, inductionHypothesis fit.of_cons⟩
  | changed _ _ _ _ _ others inductionHypothesis =>
      exact ⟨here fit others, inductionHypothesis fit.of_cons⟩

/-- The rewritten lexemes are the lexemes of the rewritten text, unless a tag
closes a comment or a literal. -/
theorem Rewritten.isLexing
    {lineBlank : Bool}
    (rewritten : Rewritten source tagOf offset lexemes lexemes')
    (lexing : IsLexing lineBlank lexemes)
    (fit : ∀ found ∈ markersFrom source offset lexemes, TagsFit tagOf found)
    (quotesFit : QuotesFit source tagOf offset lexemes) :
    IsLexing lineBlank lexemes' := by
  have lexing' : IsLexing lineBlank (lexemes' ++ []) := by
    rw [← List.append_nil lexemes] at lexing
    exact
      lexing.replaced (rewritten.replaces fit) (rewritten.quotesKept quotesFit) (Or.inl rfl)
        (fun _ held => held)
  rwa [List.append_nil] at lexing'

def editsFrom
    (source : Source)
    (tagOf : Marker → Option LocationTag)
    (offset : Nat)
    (lexemes : List Lexeme) :
    List TextEdit :=
  (markersFrom source offset lexemes).filterMap fun found =>
    found.edit? (found.withTag (tagOf found))

private theorem editsFrom_cons
    (lexeme : Lexeme)
    (rest : List Lexeme) :
    editsFrom source tagOf offset (lexeme :: rest) =
      ((((lexeme.item? source offset).bind PairingItem.marker?).bind fun found =>
          found.edit? (found.withTag (tagOf found))).toList) ++
        editsFrom source tagOf (offset + Text.byteSize lexeme.text) rest := by
  rw [editsFrom, markersFrom, itemsFrom, PairingItem.markers, List.filterMap_append,
    List.filterMap_append]
  congr 1
  cases lexeme.item? source offset with
  | none => rfl
  | some item =>
      cases item with
      | plainRegion => rfl
      | marker found =>
          cases edited : found.edit? (found.withTag (tagOf found)) <;>
            simp [PairingItem.marker?, edited]

theorem edit?_of_current
    {found : Marker}
    (current : tagOf found = found.tag) :
    found.edit? (found.withTag (tagOf found)) = none := by
  rw [current]
  exact if_pos rfl

private theorem editsFrom_kept
    {lexeme : Lexeme}
    (current : ∀ found,
      lexeme.item? source offset = some (.marker found) → tagOf found = found.tag)
    (rest : List Lexeme) :
    editsFrom source tagOf offset (lexeme :: rest) =
      editsFrom source tagOf (offset + Text.byteSize lexeme.text) rest := by
  rw [editsFrom_cons]
  cases itemEq : lexeme.item? source offset with
  | none => rfl
  | some item =>
      cases item with
      | plainRegion => rfl
      | marker found =>
          rw [Option.bind_some, PairingItem.marker?, Option.bind_some,
            edit?_of_current (current found itemEq)]
          rfl

private theorem editsFrom_changed
    {lexeme : Lexeme}
    {found : Marker}
    {tag : LocationTag}
    {edit : TextEdit}
    (isMarker : lexeme.item? source offset = some (.marker found))
    (tagEq : tagOf found = some tag)
    (edited : found.edit? (found.withTag (some tag)) = some edit)
    (rest : List Lexeme) :
    editsFrom source tagOf offset (lexeme :: rest) =
      edit :: editsFrom source tagOf (offset + Text.byteSize lexeme.text) rest := by
  rw [editsFrom_cons, isMarker, Option.bind_some, PairingItem.marker?, Option.bind_some, tagEq,
    edited]
  rfl

/-- The edits, made from the last to the first, make the rewritten text. -/
theorem Rewritten.perform_edits
    {front : Text}
    (rewritten : Rewritten source tagOf offset lexemes lexemes')
    (offsetEq : offset = Text.byteSize front) :
    (editsFrom source tagOf offset lexemes).reverse.foldlM
        (fun current edit => edit.perform? current) (front ++ lexemes.flatMap Lexeme.text) =
      some (front ++ lexemes'.flatMap Lexeme.text) := by
  induction rewritten generalizing front with
  | nil => rfl
  | @kept offset lexeme rest rest' current others inductionHypothesis =>
      subst offsetEq
      have later := inductionHypothesis (Text.byteSize_append front lexeme.text).symm
      rw [List.append_assoc, List.append_assoc] at later
      rw [editsFrom_kept current, List.flatMap_cons, List.flatMap_cons]
      exact later
  | @changed offset kind text text' found tag rest rest' isMarker tagEq stale opens rewrites
      others inductionHypothesis =>
      subst offsetEq
      obtain ⟨before, old, new, after, rfl, rfl, _, _, _, _, edited⟩ := rewrites.edit
      have later :=
        inductionHypothesis (Text.byteSize_append front (before ++ old ++ after)).symm
      have performed :=
        TextEdit.perform?_append (front ++ before) old
          (after ++ rest'.flatMap Lexeme.text) new
      rw [Text.byteSize_append] at performed
      rw [editsFrom_changed isMarker tagEq (edited stale), List.reverse_cons, List.foldlM_append,
        List.flatMap_cons, ← List.append_assoc, later, List.flatMap_cons]
      simp only [List.append_assoc] at performed ⊢
      simp [performed]

/-- The edits begin one behind the other. -/
theorem Rewritten.startsBefore_edits
    (rewritten : Rewritten source tagOf offset lexemes lexemes') :
    (editsFrom source tagOf offset lexemes).Pairwise TextEdit.StartsBefore ∧
      ∀ edit ∈ editsFrom source tagOf offset lexemes, offset < edit.span.start := by
  induction rewritten with
  | nil =>
      exact ⟨.nil, by simp [editsFrom, markersFrom, itemsFrom, PairingItem.markers]⟩
  | kept current others inductionHypothesis =>
      obtain ⟨ordered, behind⟩ := inductionHypothesis
      rw [editsFrom_kept current]
      refine ⟨ordered, fun edit member => ?_⟩
      have further := behind edit member
      omega
  | @changed offset kind text text' found tag rest rest' isMarker tagEq stale opens rewrites
      others inductionHypothesis =>
      obtain ⟨ordered, behind⟩ := inductionHypothesis
      obtain ⟨before, old, new, after, rfl, rfl, nonempty, _, _, _, edited⟩ := rewrites.edit
      have some : 0 < Text.byteSize before :=
        Nat.lt_of_lt_of_le (List.length_pos_iff.2 nonempty) (Text.length_le_byteSize before)
      simp only [Text.byteSize_append] at behind
      rw [editsFrom_changed isMarker tagEq (edited stale)]
      constructor
      · refine List.pairwise_cons.2 ⟨fun edit member => ?_, ordered⟩
        simp only [Text.byteSize_append] at member
        have further := behind edit member
        show offset + Text.byteSize before < edit.span.start
        omega
      · intro edit member
        simp only [List.mem_cons, Text.byteSize_append] at member
        rcases member with rfl | later
        · exact Nat.lt_add_of_pos_right some
        · have further := behind edit later
          omega

end Lexeme

end MacroRegions

import MacroRegions.Proofs.Nesting.Weights
import MacroRegions.Proofs.Trivia.Swallowing
import MacroRegions.Proofs.Update.Writing

/-!
Counting the `"` in the tags of a text.

The tags that a text holds have no more `"` than the text, and the tags that are
written into a text are all that it gains. The markers behind a verbatim literal that
goes on to a `"` of such a tag have fewer `"` in tags than have been written.
-/

namespace MacroRegions

private theorem LocationTag.count_quote_render_le
    {tag : LocationTag}
    {text : Text}
    (inText : ∀ path, tag.filePath = some path → path <:+: text) :
    tag.render.count '"' ≤ text.count '"' := by
  have numeralFree : (Text.numeral tag.line).count '"' = 0 := by
    refine List.count_eq_zero.2 fun member => ?_
    exact absurd (Text.isDigit_of_mem_numeral member) (by decide)
  unfold LocationTag.render
  split
  · simp [numeralFree]
  next path pathEq =>
    have inPath := (inText path pathEq).sublist.count_le '"'
    simp only [List.cons_append, List.count_cons, List.count_append, numeralFree]
    simpa using inPath

def Marker.quotes (found : Marker) : Nat :=
  found.tag.elim 0 fun tag => tag.render.count '"'

theorem Marker.exists_quote
    {found : Marker}
    (some : found.quotes ≠ 0) :
    ∃ tag, found.tag = .some tag ∧ '"' ∈ tag.render := by
  cases tagEq : found.tag with
  | none => simp [quotes, tagEq] at some
  | some tag =>
      refine ⟨tag, rfl, List.count_pos_iff.1 (Nat.pos_of_ne_zero ?_)⟩
      simpa [quotes, tagEq] using some

namespace Lexeme

variable {source : Source} {tagOf : Marker → Option LocationTag} {offset : Nat}
  {lexemes lexemes' : List Lexeme}

private theorem itemsFrom_cons_weight
    (weight : Marker → Nat)
    (source : Source)
    (offset : Nat)
    (lexeme : Lexeme)
    (rest : List Lexeme) :
    PairingItem.itemsWeight weight (itemsFrom source offset (lexeme :: rest)) =
      markerWeight weight ((lexeme.item? source offset).bind PairingItem.marker?) +
        PairingItem.itemsWeight weight
          (itemsFrom source (offset + Text.byteSize lexeme.text) rest) := by
  rw [itemsFrom]
  cases lexeme.item? source offset with
  | none => simp [markerWeight]
  | some item =>
      rw [Option.toList_some, List.singleton_append, PairingItem.itemsWeight,
        Option.bind_some]

/-- The tags of a text have no more `"` than the text. -/
theorem IsLexing.quotes_le
    {lineBlank : Bool}
    (lexing : IsLexing lineBlank lexemes)
    (source : Source)
    (offset : Nat) :
    PairingItem.itemsWeight Marker.quotes (itemsFrom source offset lexemes) ≤
      (lexemes.flatMap Lexeme.text).count '"' := by
  induction lexemes generalizing lineBlank offset with
  | nil => exact Nat.le_refl 0
  | cons lexeme rest inductionHypothesis =>
      obtain ⟨leads, lexingRest⟩ := lexing
      have later := inductionHypothesis lexingRest (offset + Text.byteSize lexeme.text)
      rw [itemsFrom_cons_weight, List.flatMap_cons, List.count_append]
      refine Nat.add_le_add ?_ later
      cases itemEq : (lexeme.item? source offset).bind PairingItem.marker? with
      | none => exact Nat.zero_le _
      | some found =>
          obtain ⟨item, isItem, isFound⟩ := Option.bind_eq_some_iff.1 itemEq
          obtain rfl : item = .marker found := by
            cases item <;> simp [PairingItem.marker?] at isFound ⊢
            exact isFound
          obtain ⟨kind, kindEq, isMarker⟩ := item?_eq_some isItem
          obtain ⟨lexemeKind, text⟩ := lexeme
          obtain rfl : lexemeKind = .trivia kind := kindEq
          cases tagEq : found.tag with
          | none => simp [markerWeight, Marker.quotes, tagEq]
          | some tag =>
              simp only [markerWeight, Option.elim, Marker.quotes, tagEq]
              exact
                LocationTag.count_quote_render_le fun path pathEq =>
                  leads.shape.path_isInfix isMarker tagEq pathEq

/-- A rewritten text has no more `"` than it had and the tags have that its
markers should have. -/
theorem Rewritten.count_quote_le
    (rewritten : Rewritten source tagOf offset lexemes lexemes') :
    (lexemes'.flatMap Lexeme.text).count '"' ≤
      (lexemes.flatMap Lexeme.text).count '"' +
        PairingItem.itemsWeight (fun found => (found.withTag (tagOf found)).quotes)
          (itemsFrom source offset lexemes) := by
  induction rewritten with
  | nil => exact Nat.zero_le _
  | kept _ _ inductionHypothesis =>
      rw [itemsFrom_cons_weight, List.flatMap_cons, List.flatMap_cons, List.count_append,
        List.count_append]
      omega
  | @changed offset kind text text' found tag rest rest' isMarker tagEq stale opens rewrites
      others inductionHypothesis =>
      obtain ⟨before, old, new, after, rfl, rfl, _, _, _, written, _⟩ := rewrites.edit
      have newCount : new.count '"' = tag.render.count '"' := by
        rcases written with rfl | rfl
        · rfl
        · simp
      have foundCount :
          markerWeight (fun found => (found.withTag (tagOf found)).quotes) (some found) =
            tag.render.count '"' := by
        simp [markerWeight, Marker.quotes, Marker.withTag, tagEq]
      rw [itemsFrom_cons_weight, isMarker, Option.bind_some, PairingItem.marker?, foundCount,
        List.flatMap_cons, List.flatMap_cons]
      simp only [List.count_append, newCount]
      omega

/-- A tag that is written is not at the beginning of the text. -/
theorem Rewritten.render_infix_tail
    {found : Marker}
    {tag : LocationTag}
    (rewritten : Rewritten source tagOf offset lexemes lexemes')
    (member : found ∈ markersFrom source offset lexemes)
    (tagEq : tagOf found = some tag)
    (stale : found.tag ≠ some tag) :
    tag.render <:+: (lexemes'.flatMap Lexeme.text).tail := by
  induction rewritten with
  | nil => simp [markersFrom, itemsFrom, PairingItem.markers] at member
  | @kept offset lexeme rest rest' current others inductionHypothesis =>
      rcases mem_markersFrom_cons.1 member with here | later
      · exact absurd ((current found here).symm.trans tagEq) stale
      · have inRest := inductionHypothesis later
        rw [List.flatMap_cons]
        cases lexeme.text with
        | nil => exact inRest
        | cons c tail =>
            exact (inRest.trans (List.tail_suffix _).isInfix).trans (List.suffix_append _ _).isInfix
  | @changed offset kind text text' other otherTag rest rest' isMarker otherEq otherStale opens
      rewrites others inductionHypothesis =>
      obtain ⟨c, tail, tail', _, rfl, rfl⟩ := cons_eq_of_rewrites opens rewrites
      rcases mem_markersFrom_cons.1 member with here | later
      · obtain rfl : other = found := by
          have markerEq := isMarker.symm.trans here
          simpa using markerEq
        obtain rfl : otherTag = tag := Option.some.inj (otherEq.symm.trans tagEq)
        obtain ⟨before, old, new, after, _, textEq, nonempty, _, _, written, _⟩ := rewrites.edit
        obtain ⟨d, before', rfl⟩ := List.exists_cons_of_ne_nil nonempty
        obtain ⟨_, rfl⟩ : c = d ∧ tail' = before' ++ new ++ after := by simpa using textEq
        have inNew : otherTag.render <:+: new := by
          rcases written with rfl | rfl
          · exact List.infix_rfl
          · exact (List.suffix_cons _ _).isInfix
        refine inNew.trans ⟨before', after ++ rest'.flatMap Lexeme.text, ?_⟩
        simp
      · have inRest := inductionHypothesis later
        rw [List.flatMap_cons, List.cons_append, List.tail_cons]
        exact (inRest.trans (List.tail_suffix _).isInfix).trans (List.suffix_append _ _).isInfix

theorem itemsFrom_literal
    {front back : List Lexeme}
    {literal : Lexeme}
    (isLiteral : literal.kind = .literal)
    (source : Source)
    (offset : Nat) :
    itemsFrom source offset (front ++ literal :: back) =
      itemsFrom source offset front ++
        itemsFrom source (offset + Text.byteSize ((front ++ [literal]).flatMap Lexeme.text))
          back := by
  have noItem : ∀ offset, literal.item? source offset = none := by
    intro offset
    rw [item?, isLiteral]
  rw [itemsFrom_append, itemsFrom, noItem, List.flatMap_append, List.flatMap_singleton,
    Text.byteSize_append, Nat.add_assoc]
  rfl

/-- A verbatim literal that goes on to the `"` of a tag leaves fewer `"` behind it
than have been written. -/
theorem Rewritten.exists_ofText_swallowed
    {front back : List Lexeme}
    {literal : Lexeme}
    {found : Marker}
    {tag : LocationTag}
    (rewritten : Rewritten source tagOf 0 (front ++ literal :: back) lexemes')
    (lexing : IsLexing true (front ++ literal :: back))
    (fit : ∀ found ∈ markersFrom source 0 (front ++ literal :: back), TagsFit tagOf found)
    (isVerbatim : ['@', '"'] <+: literal.text)
    (headEq : (back.flatMap Lexeme.text).head? = some '"')
    (member :
      found ∈
        markersFrom source (Text.byteSize ((front ++ [literal]).flatMap Lexeme.text)) back)
    (tagEq : tagOf found = some tag)
    (stale : found.tag ≠ some tag)
    (inTag : '"' ∈ tag.render) :
    ∃ front' literal' rest,
      ofText (lexemes'.flatMap Lexeme.text) = front' ++ literal' :: rest ∧
        literal'.kind = .literal ∧
        Rewritten source tagOf 0 front front' ∧
        (rest.flatMap Lexeme.text).count '"' <
          PairingItem.itemsWeight (fun found => (found.withTag (tagOf found)).quotes)
            (itemsFrom source
              (Text.byteSize ((front ++ [literal]).flatMap Lexeme.text)) back) := by
  obtain ⟨lineBlank, leads, _⟩ := lexing.exists_back
  have isLiteral := leads.shape.kind_of_verbatim isVerbatim
  have lastQuote := leads.shape.quote_notMem_tail isVerbatim headEq
  obtain ⟨front', behind', rfl, rewrittenFront, rewrittenBehind⟩ := rewritten.exists_split
  rw [Nat.zero_add] at rewrittenBehind
  -- a literal holds no marker, so it is as it was
  obtain ⟨back', rfl, rewrittenBack⟩ :
      ∃ back', behind' = literal :: back' ∧
        Rewritten source tagOf
          (Text.byteSize ((front ++ [literal]).flatMap Lexeme.text)) back back' := by
    rw [List.flatMap_append, List.flatMap_singleton, Text.byteSize_append]
    cases rewrittenBehind with
    | kept _ others => exact ⟨_, rfl, others⟩
    | changed => simp at isLiteral
  have markersEq :
      markersFrom source 0 (front ++ literal :: back) =
        markersFrom source 0 front ++
          markersFrom source (Text.byteSize ((front ++ [literal]).flatMap Lexeme.text))
            back := by
    rw [markersFrom, itemsFrom_literal isLiteral, PairingItem.markers, List.filterMap_append,
      Nat.zero_add]
    rfl
  rw [markersEq] at fit
  have replacedFront :=
    rewrittenFront.replaces fun found inFront => fit found (List.mem_append_left _ inFront)
  have replacedBack :=
    rewrittenBack.replaces fun found inBack => fit found (List.mem_append_right _ inBack)
  have same := sameUpToTrivia_flatMap replacedBack (Or.inl (Eq.refl []))
  rw [List.append_nil, List.append_nil] at same
  have quote : '"' ∈ (back'.flatMap Lexeme.text).tail :=
    (rewrittenBack.render_infix_tail member tagEq stale).subset inTag
  obtain ⟨literal', rest, eaten, lexing', isLiteral', literalText', behindEq, eatenQuotes⟩ :=
    lexing.exists_swallowed isVerbatim headEq replacedFront same quote
  refine ⟨front', literal', rest, ?_, isLiteral', rewrittenFront, ?_⟩
  · have textEq :
        (front' ++ literal :: back').flatMap Lexeme.text =
          (front' ++ literal' :: rest).flatMap Lexeme.text := by
      simp only [List.flatMap_append, List.flatMap_cons, literalText', behindEq,
        List.append_assoc]
    rw [textEq]
    exact ofTextFrom_flatMap_of_isLexing lexing'
  · have written := rewrittenBack.count_quote_le
    have before : (back.flatMap Lexeme.text).count '"' = 1 := by
      obtain ⟨behind, backEq⟩ := List.head?_eq_some_iff.1 headEq
      rw [backEq, List.tail_cons] at lastQuote
      rw [backEq, List.count_cons_self, List.count_eq_zero.2 lastQuote]
    rw [behindEq, List.count_append, before] at written
    omega

/-- Where a verbatim literal goes on to the `"` of a tag, the items before it
stay, and the tags behind it have fewer `"` than have been written. -/
theorem Rewritten.exists_items_swallowed
    {front back : List Lexeme}
    {literal : Lexeme}
    {found : Marker}
    {tag : LocationTag}
    (rewritten : Rewritten source tagOf 0 (front ++ literal :: back) lexemes')
    (split : source.text = (front ++ literal :: back).flatMap Lexeme.text)
    (lexing : IsLexing true (front ++ literal :: back))
    (fit : ∀ found ∈ markersFrom source 0 (front ++ literal :: back), TagsFit tagOf found)
    (isVerbatim : ['@', '"'] <+: literal.text)
    (headEq : (back.flatMap Lexeme.text).head? = some '"')
    (member :
      found ∈
        markersFrom source (Text.byteSize ((front ++ [literal]).flatMap Lexeme.text)) back)
    (tagEq : tagOf found = some tag)
    (stale : found.tag ≠ some tag)
    (inTag : '"' ∈ tag.render) :
    ∃ kept rest,
      itemsFrom (Source.ofText (lexemes'.flatMap Lexeme.text)) 0
            (ofText (lexemes'.flatMap Lexeme.text)) =
          kept ++ rest ∧
        kept.map (PairingItem.mapMarker Marker.outline) =
          (itemsFrom source 0 front).map
            (PairingItem.mapMarker fun found => (found.withTag (tagOf found)).outline) ∧
        PairingItem.itemsWeight Marker.quotes rest <
          PairingItem.itemsWeight (fun found => (found.withTag (tagOf found)).quotes)
            (itemsFrom source
              (Text.byteSize ((front ++ [literal]).flatMap Lexeme.text)) back) := by
  obtain ⟨front', literal', rest, lexemesEq, isLiteral', rewrittenFront, fewer⟩ :=
    rewritten.exists_ofText_swallowed lexing fit isVerbatim headEq member tagEq stale inTag
  have textEq := flatMap_text_ofText (lexemes'.flatMap Lexeme.text)
  have lexing' : IsLexing true (front' ++ literal' :: rest) := by
    rw [← lexemesEq]
    exact isLexing_ofTextFrom true _
  rw [lexemesEq] at textEq
  refine ⟨_, _, by rw [lexemesEq, itemsFrom_literal isLiteral'], ?_, ?_⟩
  · have split₀ :
        source.text =
          [] ++ (front.flatMap Lexeme.text ++ (literal :: back).flatMap Lexeme.text) := by
      rw [split, List.nil_append, List.flatMap_append]
    have split₁ :
        (Source.ofText (lexemes'.flatMap Lexeme.text)).text =
          [] ++ (front'.flatMap Lexeme.text ++ (literal' :: rest).flatMap Lexeme.text) := by
      rw [List.nil_append, ← List.flatMap_append]
      exact textEq.symm
    exact rewrittenFront.outline_items Text.byteSize_nil.symm split₀ split₁ rfl
  · obtain ⟨_, _, lexingRest⟩ := lexing'.exists_back
    exact
      Nat.lt_of_le_of_lt (lexingRest.quotes_le (Source.ofText (lexemes'.flatMap Lexeme.text)) _)
        fewer

end Lexeme

end MacroRegions

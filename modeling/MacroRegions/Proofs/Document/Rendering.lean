import MacroRegions.Proofs.Marker.Sketch
import MacroRegions.Proofs.Nesting.Listing
import MacroRegions.Proofs.Update.Writing

/-!
Rendered forests.

A forest of sketches is rendered one marker a line, what is within a block between the
lines of its markers. Parsing undoes this: it finds the blocks of the forest, each
marker on its line and as it was meant, and no problem.
-/

namespace MacroRegions

namespace Lexeme

def newline : Lexeme := ⟨.plain, ['\n']⟩

private theorem isLexing_newline
    {rest : List Lexeme}
    (lexing : IsLexing true rest)
    (lineBlank : Bool) :
    IsLexing lineBlank (newline :: rest) := by
  have alone : head lineBlank '\n' (rest.flatMap Lexeme.text) = (.plain, 0) := by
    cases lineBlank <;> rfl
  exact ⟨(Shape.plain '\n' alone).leads, lexing⟩

def finalNewline (ended : Bool) : List Lexeme :=
  if ended then [newline] else []

private theorem isLexing_finalNewline (ended lineBlank : Bool) :
    IsLexing lineBlank (finalNewline ended) := by
  cases ended with
  | true =>
      have nothing : IsLexing true [] := trivial
      exact isLexing_newline nothing lineBlank
  | false => trivial

end Lexeme

namespace MarkerSketch

/-- A marker that is found on a line as it was sketched. -/
structure IsFoundOn
    (sketch : MarkerSketch)
    (source : Source)
    (line : Nat)
    (found : Marker) :
    Prop where
  keyword : found.keyword = sketch.keyword
  form : found.form = sketch.form
  body : found.body = sketch.body
  tag : found.tag = sketch.tag
  startLine : found.position.start.line = line
  stopLine : found.position.stop.line = line
  text : source.slice? found.position.span = some sketch.text
  tagText : found.tagSpan.bind source.slice? = sketch.tagText?

def lexeme (sketch : MarkerSketch) : Lexeme :=
  ⟨.trivia sketch.kind, sketch.text⟩

private theorem exists_isFoundOn
    {source : Source}
    {front back : Text}
    (sketch : MarkerSketch)
    (split : source.text = front ++ sketch.text ++ back) :
    ∃ found,
      sketch.lexeme.item? source (Text.byteSize front) = some (.marker found) ∧
        sketch.IsFoundOn source (front.count '\n' + 1) found := by
  obtain ⟨found, isMarker, readAs⟩ :=
    sketch.exists_marker (Text.byteSize front)
      (source.positionOf
        ⟨Text.byteSize front, Text.byteSize front + Text.byteSize sketch.text⟩)
  have splitStart : source.text = front ++ (sketch.text ++ back) := by
    rw [split, List.append_assoc]
  have positionEq := (PairingItem.place_of_ofPiece? isMarker).2
  have startEq : found.position.start = source.pointAt (Text.byteSize front) := by
    rw [positionEq, Source.positionOf]
  have stopEq : found.position.stop = source.pointAt (Text.byteSize (front ++ sketch.text)) := by
    rw [positionEq, Source.positionOf, Text.byteSize_append]
  refine ⟨found, isMarker, ?_⟩
  constructor
  · exact readAs.keyword
  · exact readAs.form
  · exact readAs.body
  · exact readAs.tag
  · rw [startEq, Source.line_pointAt splitStart]
  · rw [stopEq, Source.line_pointAt split, List.count_append,
      List.count_eq_zero_of_not_mem sketch.newline_notMem_text]
  · rw [Position.span, startEq, stopEq, Source.offset_pointAt splitStart,
      Source.offset_pointAt split]
    exact
      Text.slice?_eq_some_iff.2 ⟨front, back, split, rfl, (Text.byteSize_append _ _).symm⟩
  · rw [readAs.tagSpan, tagSpan?]
    cases tagTextEq : sketch.tagText? with
    | none => rfl
    | some tagText =>
        refine
          Text.slice?_eq_some_iff.2
            ⟨front ++ (sketch.kind.opening ++ Text.spaced sketch.word? ++
                Text.spaced sketch.body ++ [' ']),
              sketch.kind.closing ++ back, ?_, Text.byteSize_append _ _, rfl⟩
        rw [split, MarkerSketch.text, rest, tagTextEq]
        simp [Text.spaced]

/-- The lexemes of markers, each on a line of its own, with `last` behind the
last of them. -/
def lexemes (last : List Lexeme) : List MarkerSketch → List Lexeme
  | [] => last
  | [sketch] => sketch.lexeme :: last
  | sketch :: next :: rest => sketch.lexeme :: .newline :: lexemes last (next :: rest)

private theorem isLexing_lexemes (ended : Bool) (sketches : List MarkerSketch) :
    Lexeme.IsLexing true (lexemes (Lexeme.finalNewline ended) sketches) := by
  fun_induction lexemes (Lexeme.finalNewline ended) sketches with
  | case1 => exact Lexeme.isLexing_finalNewline ended true
  | case2 sketch =>
      refine ⟨(sketch.shape ?_).leads, Lexeme.isLexing_finalNewline ended _⟩
      cases ended <;> rfl
  | case3 sketch next rest inductionHypothesis =>
      exact ⟨(sketch.shape rfl).leads, Lexeme.isLexing_newline inductionHypothesis _⟩

/-- The lexemes of markers are found to be the markers, one a line. -/
theorem exists_markers
    {source : Source}
    {front : Text}
    (ended : Bool)
    (sketches : List MarkerSketch)
    (split :
      source.text = front ++ (lexemes (Lexeme.finalNewline ended) sketches).flatMap Lexeme.text) :
    ∃ markers,
      Lexeme.itemsFrom source (Text.byteSize front)
            (lexemes (Lexeme.finalNewline ended) sketches) =
          markers.map .marker ∧
        List.Forall₂ (fun sketched found => sketched.1.IsFoundOn source sketched.2 found)
          (sketches.zipIdx (front.count '\n' + 1)) markers := by
  have nothing : ∀ offset, Lexeme.itemsFrom source offset (Lexeme.finalNewline ended) = [] := by
    intro offset
    cases ended <;> rfl
  fun_induction lexemes (Lexeme.finalNewline ended) sketches generalizing front with
  | case1 => exact ⟨[], nothing _, .nil⟩
  | case2 sketch =>
      rw [List.flatMap_cons, ← List.append_assoc] at split
      obtain ⟨found, isMarker, isFound⟩ := sketch.exists_isFoundOn split
      refine ⟨[found], ?_, .cons isFound .nil⟩
      rw [Lexeme.itemsFrom, isMarker, nothing]
      rfl
  | case3 sketch next rest inductionHypothesis =>
      simp only [List.flatMap_cons] at split
      rw [← List.append_assoc] at split
      obtain ⟨found, isMarker, isFound⟩ := sketch.exists_isFoundOn split
      rw [← List.append_assoc] at split
      obtain ⟨markers, itemsEq, areFound⟩ := inductionHypothesis split
      have lineEq :
          (front ++ sketch.lexeme.text ++ Lexeme.newline.text).count '\n' =
            front.count '\n' + 1 := by
        rw [List.count_append, List.count_append, lexeme,
          List.count_eq_zero_of_not_mem sketch.newline_notMem_text]
        rfl
      rw [lineEq] at areFound
      rw [Text.byteSize_append, Text.byteSize_append] at itemsEq
      refine ⟨found :: markers, ?_, .cons isFound areFound⟩
      rw [Lexeme.itemsFrom, isMarker, Lexeme.itemsFrom, itemsEq]
      rfl

end MarkerSketch

/-- A block that is to be written, in comments or in directives. -/
structure BlockSketch where
  start : MarkerSketch
  stop : MarkerSketch
  opens : start.keyword = .macroStart
  closes : stop.keyword = .macroEnd
  sameFamily : start.form.family = stop.form.family

namespace BlockSketch

def lines : Forest BlockSketch → List MarkerSketch
  | .nil => []
  | .node block children siblings =>
    block.start :: (lines children ++ block.stop :: lines siblings)

def render (ended : Bool) (forest : Forest BlockSketch) : Text :=
  ['\n'].intercalate ((lines forest).map MarkerSketch.text) ++ if ended then ['\n'] else []

/-- A forest of blocks is that of the sketches, block by block. Each block is
closed and without an error, and the first of them begins on `line`. -/
inductive IsReadBackAs (source : Source) :
    (line : Nat) → Forest BlockSketch → BlockForest → Prop where
  | nil (line : Nat) : IsReadBackAs source line .nil .nil
  | node {line : Nat} {block : BlockSketch} {start stop : Marker}
      {children siblings : Forest BlockSketch} {children' siblings' : BlockForest}
      (startFound : block.start.IsFoundOn source line start)
      (within : IsReadBackAs source (line + 1) children children')
      (stopFound : block.stop.IsFoundOn source (line + 2 * children.size + 1) stop)
      (beside : IsReadBackAs source (line + 2 * children.size + 2) siblings siblings') :
      IsReadBackAs source line (.node block children siblings)
        (.node ⟨some start, some stop, none⟩ children' siblings')

private theorem length_lines (forest : Forest BlockSketch) :
    (lines forest).length = 2 * forest.size := by
  induction forest with
  | nil => rfl
  | node block children siblings childrenHypothesis siblingsHypothesis =>
      simp only [lines, Forest.size, List.length_cons, List.length_append, childrenHypothesis,
        siblingsHypothesis]
      omega

/-- Markers that are found on the lines of a forest are the listed markers of a
forest of blocks. -/
theorem exists_isReadBackAs
    {source : Source}
    {line : Nat}
    {forest : Forest BlockSketch}
    {markers : List Marker}
    (areFound :
      List.Forall₂ (fun sketched found => sketched.1.IsFoundOn source sketched.2 found)
        ((lines forest).zipIdx line) markers) :
    ∃ tree, IsReadBackAs source line forest tree ∧ tree.brackets = markers := by
  induction forest generalizing line markers with
  | nil =>
      obtain rfl := List.forall₂_nil_left_iff.1 areFound
      exact ⟨.nil, .nil line, rfl⟩
  | node block children siblings childrenHypothesis siblingsHypothesis =>
      rw [lines, List.zipIdx_cons, List.zipIdx_append, List.zipIdx_cons, length_lines] at areFound
      obtain ⟨start, later, startFound, laterFound, rfl⟩ := List.forall₂_cons_left_iff.1 areFound
      have innerFound := (List.forall₂_take_append later _ _ laterFound.flip).flip
      have outerFound := (List.forall₂_drop_append later _ _ laterFound.flip).flip
      obtain ⟨stop, behind, stopFound, behindFound, outerEq⟩ :=
        List.forall₂_cons_left_iff.1 outerFound
      obtain ⟨children', within, innerEq⟩ := childrenHypothesis innerFound
      obtain ⟨siblings', beside, behindEq⟩ := siblingsHypothesis behindFound
      have stopLine : line + 1 + 2 * children.size = line + 2 * children.size + 1 := by omega
      rw [stopLine] at stopFound beside
      refine ⟨_, .node startFound within stopFound beside, ?_⟩
      have laterEq := List.take_append_drop ((lines children).zipIdx (line + 1)).length later
      rw [outerEq, ← innerEq, ← behindEq] at laterEq
      rw [← laterEq]
      simp [BlockForest.brackets]

/-- Every block that is read back is paired. -/
theorem IsReadBackAs.isPaired
    {source : Source}
    {line : Nat}
    {forest : Forest BlockSketch}
    {tree : BlockForest}
    (readBack : IsReadBackAs source line forest tree) :
    ∀ block ∈ tree.toList, block.IsPaired := by
  induction readBack with
  | nil => simp [Forest.toList]
  | @node _ sketch _ _ _ _ _ _ startFound _ stopFound _ childrenHypothesis
      siblingsHypothesis =>
      intro block member
      simp only [Forest.toList, List.mem_cons, List.mem_append] at member
      rcases member with rfl | inChildren | inSiblings
      · apply Block.IsPaired.intro
        · rw [startFound.keyword, sketch.opens]
        · rw [stopFound.keyword, sketch.closes]
        · rw [Marker.family, Marker.family, startFound.form, stopFound.form, sketch.sameFamily]
      · exact childrenHypothesis block inChildren
      · exact siblingsHypothesis block inSiblings

private theorem flatMap_text_lexemes (ended : Bool) (sketches : List MarkerSketch) :
    (MarkerSketch.lexemes (Lexeme.finalNewline ended) sketches).flatMap Lexeme.text =
      ['\n'].intercalate (sketches.map MarkerSketch.text) ++ if ended then ['\n'] else [] := by
  fun_induction MarkerSketch.lexemes (Lexeme.finalNewline ended) sketches with
  | case1 => cases ended <;> rfl
  | case2 sketch =>
      rw [List.flatMap_cons, List.map_singleton, List.intercalate_singleton]
      cases ended <;> rfl
  | case3 sketch next rest inductionHypothesis =>
      simp only [List.flatMap_cons, inductionHypothesis, List.map_cons,
        List.intercalate_cons_cons]
      simp [MarkerSketch.lexeme, Lexeme.newline]

/-- Parsing undoes rendering. -/
theorem parse_render (filePath : Text) (forest : Forest BlockSketch) (ended : Bool) :
    let source := Source.ofText (render ended forest)
    let document := Document.parse filePath source .lenient
    document.problems = [] ∧ IsReadBackAs source 1 forest document.tree := by
  intro source document
  have textEq :
      source.text =
        (MarkerSketch.lexemes (Lexeme.finalNewline ended) (lines forest)).flatMap
          Lexeme.text :=
    (flatMap_text_lexemes ended (lines forest)).symm
  have lexemesEq :
      Lexeme.ofText source.text =
        MarkerSketch.lexemes (Lexeme.finalNewline ended) (lines forest) :=
    Lexeme.ofTextFrom_eq_iff.2
      ⟨textEq.symm, MarkerSketch.isLexing_lexemes ended (lines forest)⟩
  obtain ⟨markers, itemsEq, areFound⟩ :=
    @MarkerSketch.exists_markers source [] ended (lines forest) textEq
  obtain ⟨tree, readBack, rfl⟩ := exists_isReadBackAs areFound
  have listed :
      Document.pairingItems source (Trivia.extract source.text) =
        tree.brackets.map .marker := by
    rw [Document.pairingItems_eq_itemsFrom, lexemesEq]
    exact itemsEq
  have documentEq : document = ⟨filePath, tree, []⟩ :=
    Document.ofTrivia_of_brackets filePath readBack.isPaired listed
  rw [documentEq]
  exact ⟨rfl, readBack⟩

/-- A region with a `*/` in its body, which closes nothing there. -/
def quotedRegion : BlockSketch where
  start :=
    { keyword := .macroStart
      form := .region
      body := some "f(\"*/\")".toList
      tag := some ⟨some "lib/a.cs".toList, 7⟩
      body_of_end := by simp
      isPhrase := by
        rintro _ ⟨⟩
        exact Text.IsPhrase.of_blankFree (by decide) (Text.blankFree_of_all (by decide))
      isWritable := by
        rintro _ ⟨⟩
        refine ⟨by decide, ?_⟩
        rintro _ ⟨⟩
        exact ⟨by decide, Text.blankFree_of_all (by decide)⟩
      bodyOpen := by simp
      pathOpen := by simp
      untagged := by simp }
  stop :=
    { keyword := .macroEnd
      form := .region
      body := none
      tag := none
      body_of_end := by simp
      isPhrase := by simp
      isWritable := by simp
      bodyOpen := by simp
      pathOpen := by simp
      untagged := by simp }
  opens := rfl
  closes := rfl
  sameFamily := rfl

example :
    render true (.single quotedRegion .nil) =
      "#region Macro f(\"*/\") #lib/a.cs#7\n#endregion\n".toList := by
  decide +kernel

end BlockSketch

end MacroRegions

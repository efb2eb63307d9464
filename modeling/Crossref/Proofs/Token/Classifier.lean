import Crossref.Proofs.Line.Outside

/-! Classifying lines. All that a reader of tokens has to remember between lines is the verbatim block that is open:
a listing with its delimiter, or a comment block with its delimiter and the offset of its start. The tokens of a
document are what its lines give by the first class that fits each of them. -/

set_option autoImplicit false

namespace Crossref

namespace Text

/-- What follows the first code units of a text. -/
def dropUnits : Nat → Text → Text
  | _, [] => []
  | count, c :: rest => if count = 0 then c :: rest else dropUnits (count - (charUnits c).length) rest

/-- The first code units of a text. -/
def takeUnits : Nat → Text → Text
  | _, [] => []
  | count, c :: rest => if count = 0 then [] else c :: takeUnits (count - (charUnits c).length) rest

/-- What stands between two offsets. -/
def slice (text : Text) (start stop : Nat) : Text := takeUnits (stop - start) (dropUnits start text)

theorem dropUnits_append (front back : Text) : dropUnits (width front) (front ++ back) = back := by
  induction front with
  | nil => cases back <;> rfl
  | cons c rest ih =>
      have positive := charUnits_length_pos c
      rw [width_cons, List.cons_append, dropUnits, if_neg (by omega), Nat.add_sub_cancel_left, ih]

theorem takeUnits_append (front back : Text) : takeUnits (width front) (front ++ back) = front := by
  induction front with
  | nil => cases back <;> rfl
  | cons c rest ih =>
      have positive := charUnits_length_pos c
      rw [width_cons, List.cons_append, takeUnits, if_neg (by omega), Nat.add_sub_cancel_left, ih]

theorem slice_append (front middle back : Text) :
    slice (front ++ (middle ++ back)) (width front) (width (front ++ middle)) = middle := by
  rw [slice, dropUnits_append, width_append, Nat.add_sub_cancel_left, takeUnits_append]

end Text

namespace Line

/-- Lines, each with the offset at which it starts. -/
def located (start : Nat) : List Line → List (Line × Nat)
  | [] => []
  | line :: rest => (line, start) :: located (start + Text.width line.text) rest

/-- A line starts behind the text of the lines before it. -/
theorem getElem?_located (start : Nat) (lines : List Line) (index : Nat) :
    (located start lines)[index]? =
      lines[index]?.map fun line => (line, start + Text.width ((lines.take index).flatMap text)) := by
  induction lines generalizing start index with
  | nil => rfl
  | cons line rest ih =>
      cases index with
      | zero => rfl
      | succ index =>
          rw [located, List.getElem?_cons_succ, ih, List.getElem?_cons_succ, List.take_succ_cons,
            List.flatMap_cons, Text.width_append, Nat.add_assoc]

theorem getElem?_located_eq_some_iff {lines : List Line} {index start : Nat} {line : Line} :
    (located 0 lines)[index]? = some (line, start) ↔
      lines[index]? = some line ∧ start = Text.width ((lines.take index).flatMap text) := by
  rw [getElem?_located, Option.map_eq_some_iff, Nat.zero_add]
  constructor
  · rintro ⟨found, read, same⟩
    cases same
    exact ⟨read, rfl⟩
  · rintro ⟨read, rfl⟩
    exact ⟨line, read, rfl⟩

end Line

/-- What a line is that no listing and no comment block holds and that is no delimiter. -/
inductive LineClass where
  | heading
  | lineComment
  | title
  | blockMacro (found : BlockMacro)
  | attributeList
  | text

namespace LineClass

def isTitle : Text → Bool
  | '.' :: c :: _ => !Text.isBlank c
  | _ => false

/-- The first class that fits a line. -/
def ofContent (content : Text) : LineClass :=
  if 0 < headingLevel content then .heading
  else if ("//" : Text).isPrefixOf content then .lineComment
  else if isTitle content then .title
  else
    match BlockMacro.ofLine? content with
    | some found => .blockMacro found
    | none =>
      if ("[" : Text).isPrefixOf content && !("[[" : Text).isPrefixOf content then .attributeList else .text

/-- The lexemes of a line of a class. -/
def lexemes (content : Text) : LineClass → List Lexeme
  | .heading => [⟨.heading, content⟩]
  | .lineComment => [⟨.lineComment, content⟩]
  | .title => [⟨.title, content⟩]
  | .blockMacro found => [⟨.blockMacroId, found.id⟩, ⟨.blockMacroBody, found.target⟩,
      ⟨.blockMacroAttributes, found.attributes⟩]
  | .attributeList => ⟨.attributeListStart, ['[']⟩ :: Lexeme.ofAttributeList content.tail
  | .text => [⟨.text, content⟩]

end LineClass

/-- Lexemes that are laid out from an offset, without the empty ones. -/
def Token.emitted (start : Nat) (lexemes : List Lexeme) : List Token :=
  place start (Lexeme.nonempty lexemes)

/-- A classifier of lines: the verbatim block that is open, with its delimiter, and for a comment block the offset
of its start. -/
inductive Classifier where
  | outside
  | inListing (delimiter : Text)
  | inComment (delimiter : Text) (start : Nat)

namespace Classifier

/-- Reads a line of a document: the block that is open behind it, and the tokens that it gives. -/
def step (document : Text) : Classifier → Line × Nat → Classifier × List Token
  | .outside, (line, start) =>
    let lineBreak : Lexeme := ⟨.lineBreak, line.ending⟩
    if isDelimiter '-' line.content then
      (.inListing line.content, Token.emitted start [⟨.listingDelimiter, line.content⟩, lineBreak])
    else if isDelimiter '=' line.content then
      (.outside, Token.emitted start [⟨.exampleDelimiter, line.text⟩])
    else if isDelimiter '/' line.content then (.inComment line.content start, [])
    else
      (.outside, Token.emitted start ((LineClass.ofContent line.content).lexemes line.content ++ [lineBreak]))
  | .inListing delimiter, (line, start) =>
    let lineBreak : Lexeme := ⟨.lineBreak, line.ending⟩
    if line.content = delimiter then
      (.outside, Token.emitted start [⟨.listingDelimiter, line.content⟩, lineBreak])
    else (.inListing delimiter, Token.emitted start [⟨.listingText, line.content⟩, lineBreak])
  | .inComment delimiter opened, (line, start) =>
    let stop := start + Text.width line.content
    if line.content = delimiter then
      (.outside, Token.emitted opened [⟨.blockComment, document.slice opened stop⟩] ++
        Token.emitted stop [⟨.lineBreak, line.ending⟩])
    else (.inComment delimiter opened, [])

/-- A comment block that is not closed reaches to the end of the document. -/
def finish (document : Text) : Classifier → List Token
  | .inComment _ opened =>
    Token.emitted opened [⟨.blockComment, document.slice opened (Text.width document)⟩]
  | _ => []

def run (document : Text) (state : Classifier) : List (Line × Nat) → List Token
  | [] => state.finish document
  | located :: rest =>
    (state.step document located).2 ++ run document (state.step document located).1 rest

def tokens (document : Text) : List Token :=
  run document .outside (Line.located 0 (Line.ofText document))

end Classifier

theorem Token.place_append (start : Nat) (front back : List Lexeme) :
    place start (front ++ back) = place start front ++ place (start + Text.width (Lexeme.textOf front)) back := by
  induction front generalizing start with
  | nil => rfl
  | cons lexeme rest ih =>
      rw [List.cons_append, place, ih, Lexeme.textOf_cons, Text.width_append, Nat.add_assoc]
      rfl

theorem Token.emitted_append (start : Nat) (front back : List Lexeme) :
    emitted start (front ++ back) =
      emitted start front ++ emitted (start + Text.width (Lexeme.textOf front)) back := by
  rw [emitted, Lexeme.nonempty_append, place_append]
  exact congrArg (fun text => _ ++ place (start + Text.width text) _) (Lexeme.textOf_filter_nonempty front)

theorem Token.emitted_cons (start : Nat) (lexeme : Lexeme) (rest : List Lexeme) :
    emitted start (lexeme :: rest) = emitted start [lexeme] ++ emitted (start + Text.width lexeme.text) rest := by
  have split := emitted_append start [lexeme] rest
  rwa [Lexeme.textOf_cons, Lexeme.textOf_nil, List.append_nil] at split

namespace LineClass

theorem exists_of_isTitle {content : Text} (title : isTitle content) :
    ∃ c rest, content = '.' :: c :: rest ∧ Text.isBlank c = false := by
  unfold isTitle at title
  split at title
  · next c rest => exact ⟨c, rest, rfl, by simpa using title⟩
  · cases title

/-- The lexemes of a line are those of the first class that fits it. -/
theorem lexemes_ofContent (content : Text) :
    (ofContent content).lexemes content = Lexeme.ofContent content := by
  unfold ofContent
  by_cases heading : 0 < headingLevel content
  · unfold Lexeme.ofContent
    rw [if_pos heading, if_pos heading]
    rfl
  rw [if_neg heading]
  by_cases comment : ("//" : Text).isPrefixOf content
  · obtain ⟨rest, rfl⟩ := List.isPrefixOf_iff_prefix.mp comment
    unfold Lexeme.ofContent
    rw [if_pos comment, if_neg heading]
    rfl
  rw [if_neg comment]
  by_cases title : isTitle content
  · obtain ⟨c, rest, rfl, filled⟩ := exists_of_isTitle title
    unfold Lexeme.ofContent
    rw [if_pos title, if_neg heading]
    exact (if_neg (Bool.eq_false_iff.mp filled)).symm
  rw [if_neg title]
  cases read : BlockMacro.ofLine? content with
  | some found => exact (Lexeme.ofContent_of_ofLine? read).symm
  | none =>
      unfold Lexeme.ofContent
      rw [if_neg heading]
      dsimp only
      split
      · next list =>
          obtain ⟨opens, single⟩ := Bool.and_eq_true_iff.mp list
          obtain ⟨rest, rfl⟩ := List.isPrefixOf_iff_prefix.mp opens
          split
          · next spelled => cases spelled
          · next spelled => cases spelled
          · next spelled =>
              cases spelled
              cases single
          · next spelled =>
              cases spelled
              rfl
          · next others => exact (others _ rfl).elim
      · next noList =>
          split
          · exact absurd rfl comment
          · next c rest =>
              have blank : Text.isBlank c := by simpa [isTitle] using title
              exact (if_pos blank).symm
          · rfl
          · next rest single =>
              have noAnchor : ("[[" : Text).isPrefixOf ('[' :: rest) = false := by
                refine Bool.eq_false_iff.mpr fun opens => ?_
                obtain ⟨tail, spelled⟩ := List.isPrefixOf_iff_prefix.mp opens
                exact single tail (List.cons.inj spelled).2.symm
              exact absurd (Bool.and_eq_true_iff.mpr ⟨rfl, congrArg (!·) noAnchor⟩) noList
          · rw [read]
            rfl

end LineClass

namespace Classifier

/-- The classifier that remembers the block that is open, if its text so far starts at an offset. -/
def ofVerbatim (start : Nat) : Verbatim → Classifier
  | .none => .outside
  | .listing delimiter => .inListing delimiter
  | .comment delimiter _ => .inComment delimiter start

variable {document : Text}

/-- One line: the tokens are laid out behind those of the lines before it, and the same block is open behind it. The
text of a closed comment block is what was withheld. -/
theorem step_ofVerbatim (state : Verbatim) (given : List Lexeme) (line : Line) {behind : Text}
    (read : document = Lexeme.textOf given ++ (state.withheld ++ (line.text ++ behind))) :
    (ofVerbatim (Text.width (Lexeme.textOf given)) state).step document
        (line, Text.width (Lexeme.textOf given ++ state.withheld)) =
      (ofVerbatim (Text.width (Lexeme.textOf (given ++ (state.step line).2))) (state.step line).1,
        Token.emitted (Text.width (Lexeme.textOf given)) (state.step line).2) := by
  cases state with
  | none =>
      simp only [Verbatim.withheld, List.append_nil, ofVerbatim, step, Verbatim.step,
        LineClass.lexemes_ofContent]
      split
      · rfl
      · split
        · rfl
        · split
          · simp only [List.append_nil]
            rfl
          · rfl
  | listing delimiter =>
      simp only [Verbatim.withheld, List.append_nil, ofVerbatim, step, Verbatim.step]
      split <;> rfl
  | comment delimiter lines =>
      simp only [ofVerbatim, step, Verbatim.step]
      split
      · rw [Verbatim.withheld, Line.text] at read
        have whole : document = Lexeme.textOf given ++
            (lines.flatMap Line.text ++ line.content ++ (line.ending ++ behind)) := by
          rw [read]
          simp only [List.append_assoc]
        have stop : Text.width (Lexeme.textOf given ++ (Verbatim.comment delimiter lines).withheld) +
              Text.width line.content =
            Text.width (Lexeme.textOf given ++ (lines.flatMap Line.text ++ line.content)) := by
          rw [Verbatim.withheld, ← Text.width_append, List.append_assoc]
        have block : document.slice (Text.width (Lexeme.textOf given))
            (Text.width (Lexeme.textOf given ++ (lines.flatMap Line.text ++ line.content))) =
            lines.flatMap Line.text ++ line.content := by
          rw [whole, Text.slice_append]
        have parts := Token.emitted_cons (Text.width (Lexeme.textOf given))
          ⟨.blockComment, lines.flatMap Line.text ++ line.content⟩ [⟨.lineBreak, line.ending⟩]
        rw [stop, block, Text.width_append]
        exact Prod.ext rfl parts.symm
      · rw [List.append_nil]
        rfl

/-- The whole run: the tokens of the remaining lines are their lexemes, laid out behind those before them. -/
theorem run_ofVerbatim (state : Verbatim) (given : List Lexeme) (lines : List Line)
    (read : document = Lexeme.textOf given ++ (state.withheld ++ lines.flatMap Line.text)) :
    run document (ofVerbatim (Text.width (Lexeme.textOf given)) state)
        (Line.located (Text.width (Lexeme.textOf given ++ state.withheld)) lines) =
      Token.emitted (Text.width (Lexeme.textOf given)) (state.lexemes lines) := by
  induction lines generalizing state given with
  | nil =>
      cases state with
      | none => rfl
      | listing => rfl
      | comment delimiter lines =>
          rw [List.flatMap_nil, Verbatim.withheld] at read
          have block := Text.slice_append (Lexeme.textOf given) (lines.flatMap Line.text) []
          rw [← read] at block
          rw [List.append_nil] at read
          rw [← read] at block
          exact congrArg (fun text => Token.emitted _ [⟨.blockComment, text⟩]) block
  | cons line rest ih =>
      have stepped := step_ofVerbatim state given line read
      have accounted := Verbatim.withheld_step state line
      have behind : Lexeme.textOf (given ++ (state.step line).2) ++ (state.step line).1.withheld =
          Lexeme.textOf given ++ state.withheld ++ line.text := by
        rw [Lexeme.textOf_append, List.append_assoc, accounted, List.append_assoc]
      have advanced := ih (state.step line).1 (given ++ (state.step line).2) (by
        rw [read, List.flatMap_cons, ← List.append_assoc, ← List.append_assoc, ← List.append_assoc, behind])
      rw [behind, Text.width_append _ line.text] at advanced
      rw [Line.located, run, stepped, advanced, Verbatim.lexemes, Token.emitted_append, Lexeme.textOf_append,
        Text.width_append (Lexeme.textOf given)]

theorem tokens_eq_ofText (document : Text) : tokens document = Token.ofText document :=
  run_ofVerbatim .none [] (Line.ofText document) (Line.flatMap_text_ofText document).symm

end Classifier

end Crossref

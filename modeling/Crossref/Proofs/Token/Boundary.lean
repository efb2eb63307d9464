import Crossref.Proofs.Token.BlockStack

/-! Documents in two parts. A lexer keeps nothing across the end of a line but the blocks that are open there, and open
fences make no difference. So where no listing and no comment block is open the parts are tokenized on their own. -/

set_option autoImplicit false

namespace Crossref

/-- The token of a document that stands behind some more code units. -/
def Token.shift (distance : Nat) (token : Token) : Token := { token with start := distance + token.start }

theorem Token.emitted_add (distance start : Nat) (lexemes : List Lexeme) :
    emitted (distance + start) lexemes = (emitted start lexemes).map (shift distance) := by
  unfold emitted
  induction Lexeme.nonempty lexemes generalizing start with
  | nil => rfl
  | cons lexeme rest ih =>
      rw [place, place, List.map_cons, Nat.add_assoc, ih]
      rfl

/-- Behind its last line feed a text has an empty line. -/
theorem Line.ofText_eq_concat {text : Text} (ended : text.getLast? = some '\n') :
    ofText text = (ofText text).dropLast ++ [⟨[], []⟩] := by
  have cut := ofText_append (.inr ended) []
  rwa [List.append_nil] at cut

theorem Line.map_fst_located (start : Nat) (lines : List Line) : (located start lines).map Prod.fst = lines := by
  induction lines generalizing start with
  | nil => rfl
  | cons line rest ih => rw [located, List.map_cons, ih]

namespace Verbatim

/-- An open block waits for a line that is not empty. -/
theorem waiting_step {state : Verbatim} (waits : state.waiting ≠ some []) (line : Line) :
    (state.step line).1.waiting ≠ some [] := by
  cases state with
  | none =>
      rcases step_none_cases line.content with ⟨delimits, steps⟩ | ⟨_, steps⟩ | ⟨delimits, steps⟩ | ⟨_, steps⟩
      all_goals
        obtain ⟨_, stepped⟩ := steps line.ending
        rw [stepped]
      · exact fun empty => ne_nil_of_isDelimiter delimits (Option.some.inj empty)
      · exact waits
      · exact fun empty => ne_nil_of_isDelimiter delimits (Option.some.inj empty)
      · exact waits
  | listing delimiter =>
      rw [step]
      split
      · intro empty
        cases empty
      · exact waits
  | comment delimiter lines =>
      rw [step]
      split
      · intro empty
        cases empty
      · exact waits

theorem waiting_behind {state : Verbatim} (waits : state.waiting ≠ some []) (lines : List Line) :
    (state.behind lines).waiting ≠ some [] := by
  induction lines generalizing state with
  | nil => exact waits
  | cons line rest ih => exact ih (waiting_step waits line)

/-- A line that is empty ends no block. -/
theorem eq_none_of_step_nil {state : Verbatim} (waits : state.waiting ≠ some []) {ending : Text}
    (closed : (state.step ⟨[], ending⟩).1 = .none) : state = .none := by
  cases state with
  | none => rfl
  | listing delimiter =>
      have continues : ([] : Text) ≠ delimiter := fun same => waits (congrArg some same.symm)
      rw [step, if_neg continues] at closed
      cases closed
  | comment delimiter lines =>
      have continues : ([] : Text) ≠ delimiter := fun same => waits (congrArg some same.symm)
      rw [step, if_neg continues] at closed
      cases closed

/-- If no block is open at the end of a text, none is open behind its last line feed. -/
theorem behind_dropLast_eq_none {text : Text} (ended : text.getLast? = some '\n')
    (closed : Verbatim.none.behind (Line.ofText text) = .none) :
    Verbatim.none.behind (Line.ofText text).dropLast = .none := by
  -- the empty line behind the last line feed is one of the lines, and it could only end a block with an empty mark
  have waits : (Verbatim.none.behind (Line.ofText text).dropLast).waiting ≠ some [] :=
    waiting_behind (fun empty => by cases empty) _
  rw [Line.ofText_eq_concat ended, behind, List.foldl_append] at closed
  exact eq_none_of_step_nil waits closed

end Verbatim

/-- The lexemes of a text with no block open at its end are those of its lines: the empty line behind the last line
feed adds nothing. -/
theorem Verbatim.nonempty_lexemes {text : Text} (ended : text.getLast? = some '\n')
    (closed : Verbatim.none.behind (Line.ofText text) = .none) :
    Lexeme.nonempty (Verbatim.none.lexemes (Line.ofText text)) =
      Lexeme.nonempty (Verbatim.none.emitted (Line.ofText text).dropLast) := by
  have cut := lexemes_append .none (Line.ofText text).dropLast [⟨[], []⟩]
  rw [← Line.ofText_eq_concat ended, behind_dropLast_eq_none ended closed] at cut
  rw [cut, Lexeme.nonempty_append]
  exact List.append_nil _

/-- Where no listing and no comment block is open at its end, a text and what follows it are tokenized on their own. -/
theorem Token.ofText_append {front : Text} (ended : front.getLast? = some '\n')
    (closed : Verbatim.none.behind (Line.ofText front) = .none) (back : Text) :
    ofText (front ++ back) = ofText front ++ (ofText back).map (shift (Text.width front)) := by
  have frontLexemes := Verbatim.nonempty_lexemes ended closed
  have frontTokens : ofText front = emitted 0 (Verbatim.none.emitted (Line.ofText front).dropLast) :=
    congrArg (place 0) frontLexemes
  have frontText : Lexeme.textOf (Verbatim.none.emitted (Line.ofText front).dropLast) = front := by
    rw [← Lexeme.textOf_filter_nonempty]
    refine (congrArg Lexeme.textOf frontLexemes.symm).trans ?_
    exact (Lexeme.textOf_filter_nonempty _).trans
      ((Verbatim.textOf_lexemes _ _).trans (Line.flatMap_text_ofText front))
  calc ofText (front ++ back)
      = emitted 0 (Verbatim.none.lexemes ((Line.ofText front).dropLast ++ Line.ofText back)) := by
        rw [← Line.ofText_append (.inr ended)]
        rfl
    _ = ofText front ++ emitted (Text.width front) (Verbatim.none.lexemes (Line.ofText back)) := by
        rw [Verbatim.lexemes_append, Verbatim.behind_dropLast_eq_none ended closed, emitted_append, frontText,
          ← frontTokens, Nat.zero_add]
    _ = ofText front ++ (ofText back).map (shift (Text.width front)) := by
        rw [← Nat.add_zero (Text.width front), emitted_add]
        rfl

namespace Classifier

/-- One line: the classifier has the same block open as the lexer, wherever this started. -/
theorem exists_step_ofVerbatim (document : Text) (opened : Nat) (state : Verbatim) (located : Line × Nat) :
    ∃ behind, ((ofVerbatim opened state).step document located).1 = ofVerbatim behind (state.step located.1).1 := by
  obtain ⟨line, start⟩ := located
  cases state with
  | none =>
      simp only [ofVerbatim, step, Verbatim.step]
      split
      · exact ⟨start, rfl⟩
      · split
        · exact ⟨start, rfl⟩
        · split
          · exact ⟨start, rfl⟩
          · exact ⟨start, rfl⟩
  | listing delimiter =>
      simp only [ofVerbatim, step, Verbatim.step]
      split
      · exact ⟨start, rfl⟩
      · exact ⟨start, rfl⟩
  | comment delimiter lines =>
      simp only [ofVerbatim, step, Verbatim.step]
      split
      · exact ⟨opened, rfl⟩
      · exact ⟨opened, rfl⟩

end Classifier

namespace StackLexer

/-- The blocks that are open at the end of a document that stands within fences, the innermost one first. -/
def leftOpen (fences : List Text) (document : Text) : List OpenBlock :=
  ((Line.located 0 (Line.ofText document)).foldl (readLine document) (within fences)).blocks

/-- The whole run: a lexer stands where the block is open that the lines leave open. -/
theorem exists_foldl_standing (document : Text) (opened : Nat) (state : Verbatim) (fences : List Text)
    (tokens : List Token) (lines : List (Line × Nat)) :
    ∃ behind outer given, lines.foldl (readLine document) (standing (.ofVerbatim opened state) fences tokens) =
      standing (.ofVerbatim behind (state.behind (lines.map Prod.fst))) outer given := by
  induction lines generalizing opened state fences tokens with
  | nil => exact ⟨opened, fences, tokens, rfl⟩
  | cons located rest ih =>
      obtain ⟨outer, stepped⟩ := readLine_standing document (.ofVerbatim opened state) fences tokens located
      obtain ⟨behind, same⟩ := Classifier.exists_step_ofVerbatim document opened state located
      rw [List.foldl_cons, stepped, same]
      exact ih behind _ outer _

theorem eq_none_of_blocks_standing {opened : Nat} {state : Verbatim} {fences : List Text} {tokens : List Token}
    (onlyFences : ∀ block ∈ (standing (.ofVerbatim opened state) fences tokens).blocks, block.kind = .fence) :
    state = .none := by
  cases state with
  | none => rfl
  | listing delimiter => cases onlyFences ⟨.listing, delimiter⟩ List.mem_cons_self
  | comment delimiter lines => cases onlyFences ⟨.comment, delimiter⟩ List.mem_cons_self

theorem behind_eq_none_of_leftOpen {fences : List Text} {document : Text}
    (onlyFences : ∀ block ∈ leftOpen fences document, block.kind = .fence) :
    Verbatim.none.behind (Line.ofText document) = .none := by
  obtain ⟨behind, outer, given, reached⟩ := exists_foldl_standing document 0 .none fences []
    (Line.located 0 (Line.ofText document))
  rw [Line.map_fst_located] at reached
  rw [leftOpen] at onlyFences
  have same : within fences = standing (.ofVerbatim 0 .none) fences [] := rfl
  rw [same, reached] at onlyFences
  exact eq_none_of_blocks_standing onlyFences

theorem tokensWithin_eq_ofText (fences : List Text) (document : Text) :
    tokensWithin fences document = Token.ofText document := by
  rw [← Classifier.tokens_eq_ofText]
  exact finish_foldl_standing document .outside fences [] _

/-- Behind a text that ends in a line feed and leaves fences open at most, a document goes on as if it began there:
its tokens are those of the text, and then those of the rest, shifted by the width of the text. -/
theorem parts_are_tokenized_on_their_own (fences : List Text) {front : Text} (ended : front.getLast? = some '\n')
    (onlyFences : ∀ block ∈ leftOpen fences front, block.kind = .fence) (back : Text) :
    tokensWithin fences (front ++ back) =
        tokensWithin fences front ++ (tokensWithin [] back).map (Token.shift (Text.width front)) ∧
      Token.ofText (front ++ back) =
        Token.ofText front ++ (Token.ofText back).map (Token.shift (Text.width front)) := by
  have parts := Token.ofText_append ended (behind_eq_none_of_leftOpen onlyFences) back
  refine ⟨?_, parts⟩
  rw [tokensWithin_eq_ofText, tokensWithin_eq_ofText, tokensWithin_eq_ofText]
  exact parts

/-- A fence that the first part leaves open behind a closed listing, and a second part that looks as if it closed the
fence, with a comment block that is not closed. -/
theorem parts_are_tokenized_on_their_own_behind_open_fence :
    let front : Text := "====\r\n----\n=====\n----\n"
    let back : Text := "====\n[a\n////\n"
    front.getLast? = some '\n' ∧ leftOpen [] front = [⟨.fence, "===="⟩] ∧
    Token.ofText (front ++ back) = Token.ofText front ++
      [⟨⟨.exampleDelimiter, "====\n"⟩, 22⟩, ⟨⟨.attributeListStart, "["⟩, 27⟩, ⟨⟨.attributeName, "a"⟩, 28⟩,
        ⟨⟨.lineBreak, "\n"⟩, 29⟩, ⟨⟨.blockComment, "////\n"⟩, 30⟩] := by
  intro front back
  have ended : front.getLast? = some '\n' := rfl
  have opened : leftOpen [] front = [⟨.fence, "===="⟩] := by decide
  have onlyFences : ∀ block ∈ leftOpen [] front, block.kind = .fence := by
    rw [opened]
    exact List.forall_mem_singleton.mpr rfl
  have shifted : (Token.ofText back).map (Token.shift (Text.width front)) =
      [⟨⟨.exampleDelimiter, "====\n"⟩, 22⟩, ⟨⟨.attributeListStart, "["⟩, 27⟩, ⟨⟨.attributeName, "a"⟩, 28⟩,
        ⟨⟨.lineBreak, "\n"⟩, 29⟩, ⟨⟨.blockComment, "////\n"⟩, 30⟩] := by
    decide
  obtain ⟨_, parts⟩ := parts_are_tokenized_on_their_own [] ended onlyFences back
  exact ⟨ended, opened, parts.trans (congrArg (Token.ofText front ++ ·) shifted)⟩

end StackLexer

end Crossref

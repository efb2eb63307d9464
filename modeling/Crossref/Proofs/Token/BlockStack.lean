import Crossref.Proofs.Token.Classifier

/-! Lexers with a stack of open blocks. Such a lexer keeps every open block, fences included, with a mode that says how
the next line is read. Only a listing or a comment block on top of the stack ever decides what a line is, so the tokens
are those of a classifier that remembers this block alone. -/

set_option autoImplicit false

namespace Crossref

inductive BlockKind where
  | listing
  | fence
  | comment
deriving DecidableEq

/-- A block that is open, with its opening line. -/
structure OpenBlock where
  kind : BlockKind
  delimiter : Text
deriving DecidableEq

inductive LexerMode where
  | normal
  | listing
  | fence
  | comment
  | attributeList
deriving DecidableEq

/-- A lexer between two lines, or within an attribute list. -/
structure StackLexer where
  tokens : List Token
  /-- The open blocks, the innermost one first. -/
  blocks : List OpenBlock
  mode : LexerMode
  commentStart : Option Nat

namespace StackLexer

def emit (lexer : StackLexer) (kind : TokenKind) (start : Nat) (text : Text) : StackLexer :=
  if text.isEmpty then lexer else { lexer with tokens := lexer.tokens ++ [⟨⟨kind, text⟩, start⟩] }

/-- The mode in which lines are read with some blocks open. -/
def modeOf (blocks : List OpenBlock) : LexerMode :=
  match blocks.head?.map OpenBlock.kind with
  | none => .normal
  | some .listing => .listing
  | some .fence => .fence
  | some .comment => .comment

def syncMode (lexer : StackLexer) : StackLexer := { lexer with mode := modeOf lexer.blocks }

def closes (lexer : StackLexer) (kind : BlockKind) (delimiter : Text) : Bool :=
  lexer.blocks.head? = some ⟨kind, delimiter⟩

/-- Closes the innermost block if the same delimiter opened it, and opens a block otherwise. -/
def toggle (lexer : StackLexer) (kind : BlockKind) (delimiter : Text) : StackLexer :=
  if lexer.closes kind delimiter then syncMode { lexer with blocks := lexer.blocks.tail }
  else syncMode { lexer with blocks := ⟨kind, delimiter⟩ :: lexer.blocks }

/-- Reads the rest of an attribute list, where `name` holds what is read of a name and `start` is its offset. -/
def readNames (lexer : StackLexer) (start : Nat) (name : Text) : Text → StackLexer
  | [] => lexer.emit .attributeName start name
  | ']' :: rest =>
    let stop := start + Text.width name
    let closed := (lexer.emit .attributeName start name).emit .attributeListEnd stop [']']
    { closed with mode := .normal }.emit .text (stop + 1) rest
  | ',' :: rest =>
    let stop := start + Text.width name
    ((lexer.emit .attributeName start name).emit .text stop [',']).readNames (stop + 1) [] rest
  | c :: rest => lexer.readNames start (name ++ [c]) rest

/-- Reads an attribute list in a mode of its own and goes back to that of the block around it. -/
def readList (lexer : StackLexer) (start : Nat) (content : Text) : StackLexer :=
  let opened := { lexer with mode := .attributeList }.emit .attributeListStart start ['[']
  (opened.readNames (start + 1) [] content.tail).syncMode

def readContent (lexer : StackLexer) (start : Nat) (content : Text) : StackLexer :=
  match LineClass.ofContent content with
  | .heading => lexer.emit .heading start content
  | .lineComment => lexer.emit .lineComment start content
  | .title => lexer.emit .title start content
  | .blockMacro found =>
    let target := start + Text.width found.id
    let attributes := target + Text.width found.target
    ((lexer.emit .blockMacroId start found.id).emit .blockMacroBody target found.target).emit
      .blockMacroAttributes attributes found.attributes
  | .attributeList => lexer.readList start content
  | .text => lexer.emit .text start content

/-- Reads a line of a document. -/
def readLine (document : Text) (lexer : StackLexer) (located : Line × Nat) : StackLexer :=
  let (line, start) := located
  let stop := start + Text.width line.content
  if lexer.mode = .comment then
    if lexer.closes .comment line.content then
      let opened := lexer.commentStart.getD 0
      let closed := (lexer.toggle .comment line.content).emit .blockComment opened (document.slice opened stop)
      { closed with commentStart := none }.emit .lineBreak stop line.ending
    else lexer
  else if lexer.mode = .listing then
    if lexer.closes .listing line.content then
      ((lexer.toggle .listing line.content).emit .listingDelimiter start line.content).emit
        .lineBreak stop line.ending
    else (lexer.emit .listingText start line.content).emit .lineBreak stop line.ending
  else if isDelimiter '-' line.content then
    ((lexer.toggle .listing line.content).emit .listingDelimiter start line.content).emit
      .lineBreak stop line.ending
  else if isDelimiter '=' line.content then
    (lexer.toggle .fence line.content).emit .exampleDelimiter start line.text
  else if isDelimiter '/' line.content then
    { lexer.toggle .comment line.content with commentStart := some start }
  else (lexer.readContent start line.content).emit .lineBreak stop line.ending

def finish (document : Text) (lexer : StackLexer) : StackLexer :=
  match lexer.mode, lexer.commentStart with
  | .comment, some opened =>
    lexer.emit .blockComment opened (document.slice opened (Text.width document))
  | _, _ => lexer

/-- The lexer at the start of a document that stands within fences, the innermost one first. -/
def within (fences : List Text) : StackLexer :=
  syncMode ⟨[], fences.map (⟨.fence, ·⟩), .normal, none⟩

/-- The tokens of a document that stands within fences. -/
def tokensWithin (fences : List Text) (document : Text) : List Token :=
  (((Line.located 0 (Line.ofText document)).foldl (readLine document) (within fences)).finish document).tokens

/-- A lexer that has given some more tokens. -/
def give (lexer : StackLexer) (tokens : List Token) : StackLexer :=
  { lexer with tokens := lexer.tokens ++ tokens }

theorem give_give (lexer : StackLexer) (first second : List Token) :
    (lexer.give first).give second = lexer.give (first ++ second) := by
  rw [give, give, give, List.append_assoc]

theorem syncMode_give (lexer : StackLexer) (tokens : List Token) :
    (lexer.give tokens).syncMode = lexer.syncMode.give tokens := rfl

theorem emit_eq_give (lexer : StackLexer) (kind : TokenKind) (start : Nat) (text : Text) :
    lexer.emit kind start text = lexer.give (Token.emitted start [⟨kind, text⟩]) := by
  rw [emit, Token.emitted]
  split
  · next empty =>
      rw [Lexeme.nonempty_cons_of_eq_nil (List.isEmpty_iff.mp empty)]
      simp [give, Lexeme.nonempty, Token.place]
  · next filled =>
      rw [Lexeme.nonempty_cons (by simpa using filled)]
      rfl

/-- Putting a name in front of lexemes, character by character, is putting it there as a whole. -/
theorem emitted_foldr_consName {lexemes : List Lexeme}
    (other : ∀ lexeme ∈ lexemes.head?, lexeme.kind ≠ .attributeName) (start : Nat) (name : Text) :
    Token.emitted start (name.foldr Lexeme.consName lexemes) =
      Token.emitted start (⟨.attributeName, name⟩ :: lexemes) := by
  have whole : ∀ c rest, (c :: rest).foldr Lexeme.consName lexemes =
      ⟨.attributeName, c :: rest⟩ :: lexemes := by
    intro c rest
    induction rest generalizing c with
    | nil => exact Lexeme.consName_of_head? other c
    | cons next behind ih =>
        rw [List.foldr_cons, ih next]
        rfl
  cases name with
  | nil => rw [List.foldr_nil, Token.emitted, Token.emitted, Lexeme.nonempty_cons_of_eq_nil rfl]
  | cons c rest => rw [whole]

/-- A name, the mark behind it, and the rest. -/
theorem emitted_name (start : Nat) (name : Text) (kind : TokenKind) (other : kind ≠ .attributeName) (mark : Text)
    (rest : List Lexeme) :
    Token.emitted start (name.foldr Lexeme.consName (⟨kind, mark⟩ :: rest)) =
      Token.emitted start [⟨.attributeName, name⟩] ++ Token.emitted (start + Text.width name) [⟨kind, mark⟩] ++
        Token.emitted (start + Text.width name + Text.width mark) rest := by
  have marked : ∀ lexeme ∈ (⟨kind, mark⟩ :: rest : List Lexeme).head?, lexeme.kind ≠ .attributeName := by
    intro lexeme mem
    cases mem
    exact other
  rw [emitted_foldr_consName marked, Token.emitted_cons, Token.emitted_cons (start + _), List.append_assoc]

/-- An attribute list is read character by character; what is read of a name stands in front of the rest. -/
theorem readNames_eq_give (lexer : StackLexer) (start : Nat) (name list : Text) :
    (lexer.readNames start name list).syncMode =
      lexer.syncMode.give (Token.emitted start (name.foldr Lexeme.consName (Lexeme.ofAttributeList list))) := by
  fun_induction readNames lexer start name list with
  | case1 lexer start name =>
      rw [emit_eq_give, syncMode_give, Lexeme.ofAttributeList, emitted_foldr_consName (by simp)]
  | case2 lexer start name rest stop closed =>
      have given : closed.syncMode = lexer.syncMode.give (Token.emitted start [⟨.attributeName, name⟩] ++
          Token.emitted stop [⟨.attributeListEnd, [']']⟩]) := by
        simp only [closed, emit_eq_give, give_give, syncMode_give]
      have parts :=
        emitted_name start name .attributeListEnd TokenKind.noConfusion [']'] [⟨.text, rest⟩]
      rw [Lexeme.ofAttributeList, parts, emit_eq_give, syncMode_give, ← give_give]
      exact congrArg (fun lexer => give lexer _) given
  | case3 lexer start name rest stop ih =>
      have parts :=
        emitted_name start name .text TokenKind.noConfusion [','] (Lexeme.ofAttributeList rest)
      rw [ih, Lexeme.ofAttributeList, parts, emit_eq_give, emit_eq_give, give_give, syncMode_give, give_give]
      rfl
  | case4 lexer start name c rest noBracket noComma ih =>
      rw [ih, List.foldr_append, Lexeme.ofAttributeList]
      · rfl
      · exact fun bracket => noBracket bracket
      · exact fun comma => noComma comma

theorem readContent_eq_give {lexer : StackLexer} (synced : lexer.syncMode = lexer) (start : Nat) (content : Text) :
    lexer.readContent start content =
      lexer.give (Token.emitted start ((LineClass.ofContent content).lexemes content)) := by
  unfold readContent
  cases LineClass.ofContent content with
  | blockMacro found =>
      rw [LineClass.lexemes, Token.emitted_cons, Token.emitted_cons (start + _)]
      simp only [emit_eq_give, give_give, List.append_assoc]
  | attributeList =>
      have read := readNames_eq_give ({ lexer with mode := .attributeList }.give
        (Token.emitted start [⟨.attributeListStart, ['[']⟩])) (start + 1) [] content.tail
      have opened : ({ lexer with mode := .attributeList } : StackLexer).syncMode = lexer := synced
      rw [syncMode_give, opened, give_give] at read
      simp only [readList, emit_eq_give]
      rw [read, LineClass.lexemes, Token.emitted_cons]
      rfl
  | _ => exact emit_eq_give lexer _ start content

/-- The lexer that stands where a classifier is, with some fences around the block that is open. -/
def standing (state : Classifier) (fences : List Text) (tokens : List Token) : StackLexer :=
  let outer : List OpenBlock := fences.map (⟨.fence, ·⟩)
  match state with
  | .outside => syncMode ⟨tokens, outer, .normal, none⟩
  | .inListing delimiter => syncMode ⟨tokens, ⟨.listing, delimiter⟩ :: outer, .normal, none⟩
  | .inComment delimiter start => syncMode ⟨tokens, ⟨.comment, delimiter⟩ :: outer, .normal, some start⟩

theorem syncMode_standing (state : Classifier) (fences : List Text) (tokens : List Token) :
    (standing state fences tokens).syncMode = standing state fences tokens := by
  cases state <;> rfl

theorem give_standing (state : Classifier) (fences : List Text) (tokens more : List Token) :
    (standing state fences tokens).give more = standing state fences (tokens ++ more) := by
  cases state <;> rfl

/-- With fences only on its stack a lexer reads lines neither as a listing nor as a comment. -/
theorem mode_standing_outside (fences : List Text) (tokens : List Token) :
    (standing .outside fences tokens).mode ≠ .comment ∧ (standing .outside fences tokens).mode ≠ .listing := by
  cases fences with
  | nil => exact ⟨LexerMode.noConfusion, LexerMode.noConfusion⟩
  | cons => exact ⟨LexerMode.noConfusion, LexerMode.noConfusion⟩

theorem toggle_standing_outside {kind : BlockKind} (other : kind ≠ .fence) (fences : List Text)
    (tokens : List Token) (delimiter : Text) :
    (standing .outside fences tokens).toggle kind delimiter =
      syncMode ⟨tokens, ⟨kind, delimiter⟩ :: fences.map (⟨.fence, ·⟩), .normal, none⟩ := by
  have opens : (standing .outside fences tokens).closes kind delimiter = false := by
    refine decide_eq_false fun top => other ?_
    cases fences with
    | nil => cases top
    | cons first rest =>
        cases top
        rfl
  rw [toggle, opens]
  rfl

theorem toggle_standing_fence (fences : List Text) (tokens : List Token) (delimiter : Text) :
    ∃ outer, (standing .outside fences tokens).toggle .fence delimiter = standing .outside outer tokens := by
  unfold toggle
  split
  · exact ⟨fences.tail, by cases fences <;> rfl⟩
  · exact ⟨delimiter :: fences, rfl⟩

theorem closes_of_held {lexer : StackLexer} {kind : BlockKind} {delimiter : Text} {outer : List OpenBlock}
    (held : lexer.blocks = ⟨kind, delimiter⟩ :: outer) (content : Text) :
    lexer.closes kind content = decide (content = delimiter) := by
  rw [closes, held]
  exact decide_eq_decide.mpr ⟨fun same => by cases same; rfl, fun same => by rw [same]; rfl⟩

theorem toggle_of_held {lexer : StackLexer} {kind : BlockKind} {delimiter : Text} {outer : List OpenBlock}
    (held : lexer.blocks = ⟨kind, delimiter⟩ :: outer) :
    lexer.toggle kind delimiter = syncMode { lexer with blocks := outer } := by
  rw [toggle, closes_of_held held, if_pos (decide_eq_true rfl), held]
  rfl

/-- One line: the fences on the stack may change, but the block that is open and the tokens are those of the
classifier. -/
theorem readLine_standing (document : Text) (state : Classifier) (fences : List Text) (tokens : List Token)
    (located : Line × Nat) :
    ∃ outer, readLine document (standing state fences tokens) located =
      standing (state.step document located).1 outer (tokens ++ (state.step document located).2) := by
  obtain ⟨line, start⟩ := located
  have broken : ∀ kind, Token.emitted start [⟨kind, line.content⟩, ⟨.lineBreak, line.ending⟩] =
      Token.emitted start [⟨kind, line.content⟩] ++
        Token.emitted (start + Text.width line.content) [⟨.lineBreak, line.ending⟩] :=
    fun kind => Token.emitted_cons start _ _
  cases state with
  | outside =>
      obtain ⟨noComment, noListing⟩ := mode_standing_outside fences tokens
      simp only [readLine, if_neg noComment, if_neg noListing, Classifier.step]
      split
      · refine ⟨fences, ?_⟩
        rw [toggle_standing_outside BlockKind.noConfusion, emit_eq_give, emit_eq_give, give_give, broken]
        rfl
      · split
        · obtain ⟨outer, toggled⟩ := toggle_standing_fence fences tokens line.content
          refine ⟨outer, ?_⟩
          rw [toggled, emit_eq_give, give_standing]
        · split
          · refine ⟨fences, ?_⟩
            rw [toggle_standing_outside BlockKind.noConfusion, List.append_nil]
            rfl
          · refine ⟨fences, ?_⟩
            rw [readContent_eq_give (syncMode_standing _ _ _), emit_eq_give, give_give, give_standing,
              Token.emitted_append, LineClass.lexemes_ofContent, Lexeme.textOf_ofContent]
  | inListing delimiter =>
      have held : (standing (.inListing delimiter) fences tokens).blocks =
          ⟨.listing, delimiter⟩ :: fences.map (⟨.fence, ·⟩) := rfl
      have noComment : (standing (.inListing delimiter) fences tokens).mode ≠ .comment := LexerMode.noConfusion
      have listing : (standing (.inListing delimiter) fences tokens).mode = .listing := rfl
      refine ⟨fences, ?_⟩
      simp only [readLine, if_neg noComment, if_pos listing, closes_of_held held, decide_eq_true_eq, Classifier.step]
      split
      · next same =>
          rw [emit_eq_give, emit_eq_give, give_give, broken, same, toggle_of_held held]
          rfl
      · rw [emit_eq_give, emit_eq_give, give_give, broken, give_standing]
  | inComment delimiter opened =>
      have held : (standing (.inComment delimiter opened) fences tokens).blocks =
          ⟨.comment, delimiter⟩ :: fences.map (⟨.fence, ·⟩) := rfl
      have comment : (standing (.inComment delimiter opened) fences tokens).mode = .comment := rfl
      refine ⟨fences, ?_⟩
      simp only [readLine, if_pos comment, closes_of_held held, decide_eq_true_eq, Classifier.step]
      split
      · next same =>
          rw [emit_eq_give, emit_eq_give, same, toggle_of_held held, ← List.append_assoc]
          rfl
      · rw [List.append_nil]

/-- The whole run: the tokens are those that the classifier gives behind the ones before. -/
theorem finish_foldl_standing (document : Text) (state : Classifier) (fences : List Text) (tokens : List Token)
    (lines : List (Line × Nat)) :
    ((lines.foldl (readLine document) (standing state fences tokens)).finish document).tokens =
      tokens ++ state.run document lines := by
  induction lines generalizing state fences tokens with
  | nil =>
      cases state with
      | outside =>
          cases fences <;> exact (List.append_nil tokens).symm
      | inListing => exact (List.append_nil tokens).symm
      | inComment delimiter opened =>
          exact congrArg StackLexer.tokens (emit_eq_give (standing (.inComment delimiter opened) fences tokens) _ _ _)
  | cons located rest ih =>
      obtain ⟨outer, stepped⟩ := readLine_standing document state fences tokens located
      rw [List.foldl_cons, stepped, ih, Classifier.run, List.append_assoc]

/-- Whatever fences a document stands within and opens, the tokens that a lexer with a stack gives are those of the
classifier that remembers a listing or a comment block only; and these are the tokens of the document. -/
theorem fences_never_change_tokens (fences : List Text) (document : Text) :
    tokensWithin fences document = Classifier.tokens document ∧
      Classifier.tokens document = Token.ofText document :=
  ⟨finish_foldl_standing document .outside fences [] _, Classifier.tokens_eq_ofText document⟩

/-- Fences of two lengths that cross, the first of which closes a fence around the document, and an attribute list
within them. -/
example : tokensWithin ["====="] "=====\n====\n[a,b]\n=====\n====" =
    [⟨⟨.exampleDelimiter, "=====\n"⟩, 0⟩, ⟨⟨.exampleDelimiter, "====\n"⟩, 6⟩, ⟨⟨.attributeListStart, "["⟩, 11⟩,
      ⟨⟨.attributeName, "a"⟩, 12⟩, ⟨⟨.text, ","⟩, 13⟩, ⟨⟨.attributeName, "b"⟩, 14⟩,
      ⟨⟨.attributeListEnd, "]"⟩, 15⟩, ⟨⟨.lineBreak, "\n"⟩, 16⟩, ⟨⟨.exampleDelimiter, "=====\n"⟩, 17⟩,
      ⟨⟨.exampleDelimiter, "===="⟩, 23⟩] := by
  decide

end StackLexer

end Crossref

import Crossref.Proofs.Line.Table
import Crossref.Proofs.Token.Tiling
import Crossref.Reference
import Mathlib.Data.List.Basic

/-! Mentions: the tokens of a document that can declare or refer to something, each with its line
and all else that decides what it says. The declarations and the references of a document are
functions of its mentions alone, so neither offsets nor any other token can change them. -/

set_option autoImplicit false

namespace Crossref

structure Mention where
  line : Nat
  kind : TokenKind
  text : Text
  /-- Whether a line starts with the token. -/
  startsLine : Bool
  /-- Whether an attribute list starts right before the token. -/
  opensList : Bool
  /-- The lines of text behind the token that can continue its value. -/
  continuations : List Text
  /-- The target behind the name of a macro. -/
  target : Option Text
deriving DecidableEq

def TokenKind.mentions : TokenKind → Bool
  | .text | .attributeName | .blockMacroId => true
  | _ => false

namespace Lexeme

/-- The lexemes of a document, laid out by `Token.place`. -/
def ofText (text : Text) : List Lexeme :=
  (Verbatim.none.lexemes (Line.ofText text)).filter fun lexeme => !lexeme.text.isEmpty

theorem textOf_ofText (text : Text) : textOf (ofText text) = text := by
  rw [ofText, textOf_filter_nonempty, Verbatim.textOf_lexemes]
  exact Line.flatMap_text_ofText text

/-- The texts that stand behind one line break each. -/
def continuations : List Lexeme → List Text
  | ending :: next :: rest =>
    if ending.kind = .lineBreak && next.kind = .text then next.text :: continuations rest else []
  | _ => []

def target? : List Lexeme → Option Text
  | ⟨.blockMacroBody, text⟩ :: _ => some text
  | _ => none

end Lexeme

namespace Mention

def ofLexemes (line : Nat) (startsLine opensList : Bool) : List Lexeme → List Mention
  | [] => []
  | lexeme :: rest =>
    let behind := ofLexemes (line + lexeme.text.count '\n') (lexeme.text.getLast? = some '\n')
      (lexeme.kind = .attributeListStart) rest
    if lexeme.kind.mentions then
      ⟨line, lexeme.kind, lexeme.text, startsLine, opensList, Lexeme.continuations rest,
        Lexeme.target? rest⟩ :: behind
    else behind

def ofText (text : Text) : List Mention := ofLexemes 1 true false (Lexeme.ofText text)

end Mention

namespace AttributeEntry

def extendBy (value : Text) : List Text → Text
  | [] => value
  | next :: rest =>
    if isContinued value then
      extendBy (Text.trimEnd value.dropLast ++ " " ++ Text.trim next) rest
    else value

theorem extend_eq_extendBy (value : Text) (following : List Token) :
    extend value following = extendBy value (Lexeme.continuations (following.map (·.toLexeme))) := by
  fun_induction extend value following with
  | case1 value ending next rest continues ih =>
      simp only [Bool.and_eq_true, decide_eq_true_eq] at continues
      obtain ⟨⟨continued, isBreak⟩, isText⟩ := continues
      simp only [List.map_cons, Lexeme.continuations, isBreak, isText, decide_true, Bool.and_self,
        ↓reduceIte, extendBy, continued]
      exact ih
  | case2 value ending next rest stops =>
      simp only [List.map_cons, Lexeme.continuations]
      split
      · rename_i follows
        simp only [Bool.and_eq_true, decide_eq_true_eq] at stops follows
        have stopped : isContinued value = false := by
          cases continued : isContinued value with
          | false => rfl
          | true => exact absurd ⟨⟨continued, follows.1⟩, follows.2⟩ stops
        simp [extendBy, stopped]
      · rfl
  | case3 following value short =>
      match following with
      | [] => rfl
      | [_] => rfl
      | ending :: next :: rest => exact (short ending next rest rfl).elim

end AttributeEntry

namespace Declared

def ofMention (file : Text) (mention : Mention) : List Declared :=
  let location : Location := ⟨file, mention.line⟩
  match mention.kind with
  | .text =>
    let inlineAnchors := (Anchor.inline mention.text).map fun id => .anchor ⟨location, id⟩
    if mention.startsLine then
      match AttributeEntry.ofLine? mention.text with
      | some entry =>
        let value := entry.value.map (AttributeEntry.extendBy · mention.continuations)
        [.attribute ⟨{ entry with value }, location⟩]
      | none =>
        match Anchor.ofLine? mention.text with
        | some id => [.anchor ⟨location, id⟩]
        | none => inlineAnchors
    else inlineAnchors
  | .attributeName =>
    if mention.opensList then
      (Anchor.shorthand? (Text.trim mention.text)).toList.map fun id => .anchor ⟨location, id⟩
    else []
  | _ => []

def opensList (previous : Option Token) : Bool :=
  previous.any fun token => token.kind = .attributeListStart

/-- One token declares what its mention does; a token without a mention declares nothing. -/
theorem ofToken_eq_ofMention (location : Location) (previous : Option Token) (token : Token)
    (following : List Token) :
    ofToken location previous token following =
      if token.kind.mentions then
        ofMention location.file ⟨location.line, token.kind, token.text, atLineStart previous,
          opensList previous, Lexeme.continuations (following.map (·.toLexeme)),
          Lexeme.target? (following.map (·.toLexeme))⟩
      else [] := by
  have extended : (fun value => AttributeEntry.extend value following) = fun value =>
      AttributeEntry.extendBy value (Lexeme.continuations (following.map (·.toLexeme))) :=
    funext fun value => AttributeEntry.extend_eq_extendBy value following
  cases kind : token.kind with
  | text =>
      simp only [ofToken, ofMention, kind, TokenKind.mentions, AttributeEntry.read?, extended]
      cases AttributeEntry.ofLine? token.text <;> rfl
  | attributeName =>
      simp only [ofToken, ofMention, kind, TokenKind.mentions]
      rfl
  | _ => simp [ofToken, ofMention, kind, TokenKind.mentions]

theorem ofTokens_place (file front : Text) (previous : Option Token) (lexemes : List Lexeme) :
    ofTokens file (LineTable.ofText (front ++ Lexeme.textOf lexemes)) previous
        (Token.place (Text.width front) lexemes) =
      (Mention.ofLexemes (1 + front.count '\n') (atLineStart previous) (opensList previous)
        lexemes).flatMap (ofMention file) := by
  induction lexemes generalizing front previous with
  | nil => rfl
  | cons lexeme rest ih =>
      have behind := ih (front ++ lexeme.text) (some ⟨lexeme, Text.width front⟩)
      simp only [Text.width_append, List.count_append, ← Nat.add_assoc, List.append_assoc] at behind
      simp only [Token.place, ofTokens, Lexeme.textOf_cons, behind, ofToken_eq_ofMention,
        Token.map_toLexeme_place, LineTable.lineOf_width, Mention.ofLexemes]
      split
      · rfl
      · rfl

/-- A document declares what its mentions declare. -/
theorem ofSource_eq_ofMentions (source : Source) :
    ofSource source = (Mention.ofText source.text).flatMap (ofMention source.path) := by
  have placed := ofTokens_place source.path [] none (Lexeme.ofText source.text)
  rw [List.nil_append, Lexeme.textOf_ofText] at placed
  exact placed

end Declared

namespace Project

variable (project : Project) (disk : Disk) (file : Text)

def checkMention (mention : Mention) : Noted (Option Reference) :=
  let macroName := mention.text.take (mention.text.length - 2)
  match mention.kind, mention.target, List.lookup macroName referenceMacros with
  | .blockMacroId, some target, some family =>
    project.checkTarget disk ⟨file, mention.line⟩ macroName target family
  | _, _, _ => return none

/-- Two neighbouring tokens make the reference that the mention of the first one makes. -/
theorem checkTokens_eq_checkMention (lines : LineTable) (id body : Token) (rest : List Lexeme)
    (startsLine opensList : Bool) (continuations : List Text) :
    project.checkTokens disk file lines id body =
      if id.kind.mentions then
        project.checkMention disk file ⟨lines.lineOf id.start, id.kind, id.text, startsLine,
          opensList, continuations, Lexeme.target? (body.toLexeme :: rest)⟩
      else return none := by
  obtain ⟨⟨bodyKind, bodyText⟩, bodyStart⟩ := body
  cases kind : id.kind with
  | blockMacroId =>
      simp only [checkTokens, checkMention, kind, TokenKind.mentions, if_true]
      cases bodyKind <;>
        cases List.lookup (id.text.take (id.text.length - 2)) referenceMacros <;> rfl
  | _ => simp [checkTokens, checkMention, kind, TokenKind.mentions]

/-- A mention without a target makes no reference. -/
theorem checkMention_of_target_none {mention : Mention} (bare : mention.target = none) :
    project.checkMention disk file mention = return none := by
  unfold checkMention
  rw [bare]
  cases mention.kind <;> rfl

/-- Whatever is collected from the checks of all neighbouring tokens is collected from mentions. -/
theorem flatMap_checkTokens {β : Type} (collect : Noted (Option Reference) → List β)
    (silent : collect (return none) = []) (front : Text) (lexemes : List Lexeme)
    (startsLine opensList : Bool) :
    let tokens := Token.place (Text.width front) lexemes
    let lines := LineTable.ofText (front ++ Lexeme.textOf lexemes)
    ((tokens.zip (tokens.drop 1)).flatMap fun (id, body) =>
        collect (project.checkTokens disk file lines id body)) =
      (Mention.ofLexemes (1 + front.count '\n') startsLine opensList lexemes).flatMap fun mention =>
        collect (project.checkMention disk file mention) := by
  induction lexemes generalizing front startsLine opensList with
  | nil => rfl
  | cons lexeme rest ih =>
      intro tokens lines
      cases rest with
      | nil =>
          simp only [tokens, Token.place, List.drop_one, List.tail_cons, List.zip_nil_right,
            List.flatMap_nil, Mention.ofLexemes]
          split
          · simp [checkMention_of_target_none, Lexeme.target?, silent]
          · rfl
      | cons next behind =>
          have later := ih (front ++ lexeme.text) (lexeme.text.getLast? = some '\n')
            (lexeme.kind = .attributeListStart)
          simp only [Text.width_append, List.count_append, ← Nat.add_assoc, List.append_assoc,
            ← Lexeme.textOf_cons] at later
          rw [Mention.ofLexemes]
          simp only [tokens, lines, Token.place, List.drop_one, List.tail_cons, List.zip_cons_cons,
            List.flatMap_cons] at later ⊢
          rw [later, checkTokens_eq_checkMention project disk file _ _ _ behind startsLine opensList
            (Lexeme.continuations (next :: behind))]
          simp only [LineTable.lineOf_width]
          split
          · rfl
          · rw [silent]
            rfl

theorem checkDocument_eq_checkMentions (text : Text) :
    project.checkDocument disk file text = do
      let found ← (Mention.ofText text).mapM (project.checkMention disk file)
      return found.filterMap id := by
  have collected := fun {β : Type} (collect : Noted (Option Reference) → List β) silent =>
    flatMap_checkTokens project disk file collect silent [] (Lexeme.ofText text) true false
  simp only [List.nil_append, Lexeme.textOf_ofText] at collected
  have values := collected (fun noted => noted.value.toList) rfl
  have notices := collected (·.notices) rfl
  simp only [checkDocument, Noted.mapM_eq, bind, pure, List.filterMap_eq_flatMap_toList,
    List.flatMap_map, id_eq]
  exact congrArg₂ Noted.mk values (congrArg (· ++ []) notices)

end Project

end Crossref

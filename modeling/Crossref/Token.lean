import Crossref.Text.Units

/-! Tokens: the classified pieces that a document consists of. -/

set_option autoImplicit false

namespace Crossref

inductive TokenKind where
  | text
  | lineBreak
  | lineComment
  | blockComment
  | listingDelimiter
  | listingText
  | heading
  | exampleDelimiter
  | title
  | blockMacroId
  | blockMacroBody
  | blockMacroAttributes
  | attributeListStart
  | attributeName
  | attributeListEnd
deriving DecidableEq

/-- The name under which a kind is printed. -/
def TokenKind.name : TokenKind → Text
  | .text => "TEXT"
  | .lineBreak => "LINE_BREAK"
  | .lineComment => "LINE_COMMENT"
  | .blockComment => "BLOCK_COMMENT"
  | .listingDelimiter => "LISTING_DELIMITER"
  | .listingText => "LISTING_TEXT"
  | .heading => "HEADING"
  | .exampleDelimiter => "EXAMPLE_BLOCK_DELIMITER"
  | .title => "TITLE"
  | .blockMacroId => "BLOCK_MACRO_ID"
  | .blockMacroBody => "BLOCK_MACRO_BODY"
  | .blockMacroAttributes => "BLOCK_MACRO_ATTRIBUTES"
  | .attributeListStart => "BLOCK_ATTRS_START"
  | .attributeName => "BLOCK_ATTR_NAME"
  | .attributeListEnd => "BLOCK_ATTRS_END"

/-- A classified piece of text without a position. -/
structure Lexeme where
  kind : TokenKind
  text : Text
deriving DecidableEq

/-- A classified piece of text and the offset at which it starts. -/
structure Token extends Lexeme where
  start : Nat
deriving DecidableEq

/-- The number of equals signs in front of a heading's first blank; zero if the line is no heading. -/
def headingLevel (line : Text) : Nat :=
  match line.dropWhile (· = '=') with
  | ' ' :: _ => (line.takeWhile (· = '=')).length
  | _ => 0

namespace Token

/-- The number of code units that a token spans. -/
def length (token : Token) : Nat := Text.width token.text

/-- The level of a heading, and zero for every other token. -/
def level (token : Token) : Nat :=
  if token.kind = .heading then headingLevel token.text else 0

/-- Lays lexemes end to end, the first one at `offset`. -/
def place (offset : Nat) : List Lexeme → List Token
  | [] => []
  | lexeme :: rest => ⟨lexeme, offset⟩ :: place (offset + Text.width lexeme.text) rest

/-- The kind and the text in quotes, with line breaks spelled out. -/
def describe (token : Token) : Text :=
  let shown := Text.replaceChar '\n' "\\n" (Text.replaceChar '\r' "\\r" token.text)
  token.kind.name ++ " ('" ++ shown ++ "')"

/-- One described token a line. -/
def listing (tokens : List Token) : Text := Text.join "\n" (tokens.map describe)

end Token

end Crossref

import Crossref.Line
import Crossref.Token

/-! Cutting a document into tokens, line by line. Between lines only an open listing or comment
block is remembered: its content is verbatim until the line that opened it comes again. -/

set_option autoImplicit false

namespace Crossref

/-- A line of four or more equal characters. -/
def isDelimiter (mark : Char) (line : Text) : Bool := 4 ≤ line.length && line.all (· = mark)

/-- The name, target and bracketed attributes of a block macro. -/
structure BlockMacro where
  id : Text
  target : Text
  attributes : Text
deriving DecidableEq

/-- Reads a line such as `image::pic.png[Caption]`. The target stops at a bracket or a blank, and
the attributes reach to the end of the line without crossing a line terminator. -/
def BlockMacro.ofLine? (line : Text) : Option BlockMacro :=
  match line with
  | [] => none
  | first :: _ =>
    let name := line.takeWhile Text.isNamePart
    if !Text.isWord first then none
    else
      match line.dropWhile Text.isNamePart with
      | ':' :: ':' :: rest =>
        let target := rest.takeWhile fun c => c ≠ '[' && !Text.isBlank c
        let attributes := rest.dropWhile fun c => c ≠ '[' && !Text.isBlank c
        match attributes with
        | '[' :: inner =>
          if inner.getLast? = some ']' && !inner.any Text.isLineTerminator then
            some ⟨name ++ "::", target, attributes⟩
          else none
        | _ => none
      | _ => none

namespace Lexeme

/-- Puts a character in front of lexemes, into the name that they start with if there is one. -/
def consName (c : Char) : List Lexeme → List Lexeme
  | ⟨.attributeName, name⟩ :: rest => ⟨.attributeName, c :: name⟩ :: rest
  | rest => ⟨.attributeName, [c]⟩ :: rest

/-- The lexemes of an attribute list behind its opening bracket. Commas separate names, and what
follows the closing bracket is text. -/
def ofAttributeList : Text → List Lexeme
  | [] => []
  | ']' :: rest => [⟨.attributeListEnd, [']']⟩, ⟨.text, rest⟩]
  | ',' :: rest => ⟨.text, [',']⟩ :: ofAttributeList rest
  | c :: rest => consName c (ofAttributeList rest)

/-- The lexemes of a line that is neither a delimiter nor verbatim. -/
def ofContent (content : Text) : List Lexeme :=
  if 0 < headingLevel content then [⟨.heading, content⟩]
  else
    match content with
    | '/' :: '/' :: _ => [⟨.lineComment, content⟩]
    | '.' :: c :: _ => if Text.isBlank c then [⟨.text, content⟩] else [⟨.title, content⟩]
    | '[' :: '[' :: _ => [⟨.text, content⟩]
    | '[' :: rest => ⟨.attributeListStart, ['[']⟩ :: ofAttributeList rest
    | _ =>
      match BlockMacro.ofLine? content with
      | some found =>
        [⟨.blockMacroId, found.id⟩, ⟨.blockMacroBody, found.target⟩,
          ⟨.blockMacroAttributes, found.attributes⟩]
      | none => [⟨.text, content⟩]

end Lexeme

/-- The block that makes the next line verbatim, with its opening line. A comment block keeps the
lines read so far, because it is one token. -/
inductive Verbatim where
  | none
  | listing (delimiter : Text)
  | comment (delimiter : Text) (lines : List Line)
deriving DecidableEq

namespace Verbatim

/-- Reads one line: the block that is open behind it, and its lexemes. -/
def step : Verbatim → Line → Verbatim × List Lexeme
  | .none, line =>
    let lineBreak : Lexeme := ⟨.lineBreak, line.ending⟩
    if isDelimiter '-' line.content then
      (.listing line.content, [⟨.listingDelimiter, line.content⟩, lineBreak])
    else if isDelimiter '=' line.content then (.none, [⟨.exampleDelimiter, line.text⟩])
    else if isDelimiter '/' line.content then (.comment line.content [line], [])
    else (.none, Lexeme.ofContent line.content ++ [lineBreak])
  | .listing delimiter, line =>
    let lineBreak : Lexeme := ⟨.lineBreak, line.ending⟩
    if line.content = delimiter then (.none, [⟨.listingDelimiter, line.content⟩, lineBreak])
    else (.listing delimiter, [⟨.listingText, line.content⟩, lineBreak])
  | .comment delimiter lines, line =>
    if line.content = delimiter then
      (.none,
        [⟨.blockComment, lines.flatMap Line.text ++ line.content⟩, ⟨.lineBreak, line.ending⟩])
    else (.comment delimiter (lines ++ [line]), [])

/-- What is left of a block at the end of the document. -/
def finish : Verbatim → List Lexeme
  | .none => []
  | .listing _ => []
  | .comment _ lines => [⟨.blockComment, lines.flatMap Line.text⟩]

/-- The lexemes of the remaining lines, some of them possibly empty. -/
def lexemes (state : Verbatim) : List Line → List Lexeme
  | [] => state.finish
  | line :: rest => (state.step line).2 ++ (state.step line).1.lexemes rest

end Verbatim

/-- The tokens of a document. Reading never fails: what is not recognised is text. -/
def Token.ofText (text : Text) : List Token :=
  Token.place 0 <|
    (Verbatim.none.lexemes (Line.ofText text)).filter fun lexeme => !lexeme.text.isEmpty

end Crossref

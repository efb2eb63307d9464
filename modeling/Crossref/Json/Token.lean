import Crossref.Json.Value
import Crossref.Text.Units

/-! The tokens of a JSON text with comments. White space, comments and unknown symbols are passed
over; what is wrong with them is reported together with the token behind them. The problems are those that release
3.3.1 of the package jsonc-parser finds. -/

set_option autoImplicit false

namespace Crossref.Json

inductive Fault where
  | invalidSymbol
  | propertyNameExpected
  | valueExpected
  | colonExpected
  | commaExpected
  | closeBraceExpected
  | closeBracketExpected
  | endOfFileExpected
  | unexpectedEndOfComment
  | unexpectedEndOfString
  | unexpectedEndOfNumber
  | invalidUnicode
  | invalidEscapeCharacter
  | invalidCharacter
deriving DecidableEq

def Fault.name : Fault → Text
  | .invalidSymbol => "InvalidSymbol"
  | .propertyNameExpected => "PropertyNameExpected"
  | .valueExpected => "ValueExpected"
  | .colonExpected => "ColonExpected"
  | .commaExpected => "CommaExpected"
  | .closeBraceExpected => "CloseBraceExpected"
  | .closeBracketExpected => "CloseBracketExpected"
  | .endOfFileExpected => "EndOfFileExpected"
  | .unexpectedEndOfComment => "UnexpectedEndOfComment"
  | .unexpectedEndOfString => "UnexpectedEndOfString"
  | .unexpectedEndOfNumber => "UnexpectedEndOfNumber"
  | .invalidUnicode => "InvalidUnicode"
  | .invalidEscapeCharacter => "InvalidEscapeCharacter"
  | .invalidCharacter => "InvalidCharacter"

/-- Something wrong with a text, and the offset of the token at which it shows. -/
structure Problem where
  fault : Fault
  offset : Nat
deriving DecidableEq

inductive TokenKind where
  | openBrace
  | closeBrace
  | openBracket
  | closeBracket
  | comma
  | colon
  /-- A string, a number or a name such as `true`, with its value. -/
  | string (value : Text)
  | literal (value : Json)
  | endOfText

/-- A token, its offset, and the problems met on the way to it. -/
structure Token where
  kind : TokenKind
  offset : Nat
  problems : List Problem

namespace Lexer

def isSpace (c : Char) : Bool := c = ' ' || c = '\t' || c = '\n' || c = '\r'

def isLineBreak (c : Char) : Bool := c = '\n' || c = '\r'

/-- Whether a word goes on with a character. -/
def isWordPart (c : Char) : Bool := !isSpace c && !("\x7d]\x7b[\":,/".toList).contains c

/-- A string behind its opening quote: the code points of its value, what is wrong with it, and the
rest. Of several faults the last one counts. -/
def scanString (fault : Option Fault) : Nat → Text → List Nat × Option Fault × Text
  | 0, rest => ([], fault, rest)
  | _, [] => ([], some .unexpectedEndOfString, [])
  | fuel + 1, c :: rest =>
    let keep (code : Nat) (fault : Option Fault) (rest : Text) : List Nat × Option Fault × Text :=
      let (codes, fault, behind) := scanString fault fuel rest
      (code :: codes, fault, behind)
    match c, rest with
    | '"', _ => ([], fault, rest)
    | '\\', [] => ([], some .unexpectedEndOfString, [])
    | '\\', escape :: behind =>
      match escape with
      | '"' | '\\' | '/' => keep escape.toNat fault behind
      | 'b' => keep 8 fault behind
      | 'f' => keep 12 fault behind
      | 'n' => keep 10 fault behind
      | 'r' => keep 13 fault behind
      | 't' => keep 9 fault behind
      | 'u' =>
        let digits := (behind.take 4).takeWhile fun digit => (Text.hexDigit? digit).isSome
        match digits.length, Text.hexNumber? digits with
        | 4, some code => keep code fault (behind.drop 4)
        | _, _ => scanString (some .invalidUnicode) fuel (behind.drop digits.length)
      | _ => scanString (some .invalidEscapeCharacter) fuel behind
    | _, _ =>
      if isLineBreak c then ([], some .unexpectedEndOfString, c :: rest)
      else keep c.toNat (if c.toNat < 0x20 then some .invalidCharacter else fault) rest

/-- The integer that digits stand for. -/
def number (digits : Text) : Nat :=
  digits.foldl (fun value c => value * 10 + (c.toNat - '0'.toNat)) 0

/-- The exponent behind a number, if there is an indicator for one. -/
def scanExponent (text : Text) : Int × Option Fault × Text :=
  match text with
  | mark :: rest =>
    if mark = 'e' || mark = 'E' then
      let (negative, rest) := match rest with
        | '-' :: behind => (true, behind)
        | '+' :: behind => (false, behind)
        | _ => (false, rest)
      let digits := rest.takeWhile Char.isDigit
      if digits.isEmpty then (0, some .unexpectedEndOfNumber, rest)
      else
        let size : Int := number digits
        (if negative then -size else size, none, rest.drop digits.length)
    else (0, none, text)
  | [] => (0, none, [])

/-- A number that starts with a digit. A zero is not followed by further digits. -/
def scanNumber (negative : Bool) (text : Text) : Decimal × Option Fault × Text :=
  let whole := if text.head? = some '0' then ['0'] else text.takeWhile Char.isDigit
  match text.drop whole.length with
  | '.' :: rest =>
    let fraction := rest.takeWhile Char.isDigit
    if fraction.isEmpty then (⟨negative, number whole, 0⟩, some .unexpectedEndOfNumber, rest)
    else
      let (exponent, fault, behind) := scanExponent (rest.drop fraction.length)
      (⟨negative, number (whole ++ fraction), exponent - fraction.length⟩, fault, behind)
  | rest =>
    let (exponent, fault, behind) := scanExponent rest
    (⟨negative, number whole, exponent⟩, fault, behind)

/-- What follows a comment behind its opening, and whether the comment is closed. -/
def skipComment : Text → Bool × Text
  | [] => (false, [])
  | '*' :: '/' :: rest => (true, rest)
  | _ :: rest => skipComment rest

/-- What stands at the start of a text: a token, or something to pass over. -/
inductive Scanned where
  | token (kind : TokenKind) (fault : Option Fault) (rest : Text)
  | passed (fault : Option Fault) (rest : Text)

def scan (text : Text) : Scanned :=
  match text with
  | [] => .token .endOfText none []
  | c :: rest =>
    let word := text.takeWhile isWordPart
    match c, rest with
    | '{', _ => .token .openBrace none rest
    | '}', _ => .token .closeBrace none rest
    | '[', _ => .token .openBracket none rest
    | ']', _ => .token .closeBracket none rest
    | ':', _ => .token .colon none rest
    | ',', _ => .token .comma none rest
    | '"', _ =>
      let (codes, fault, behind) := scanString none text.length rest
      .token (.string (Text.ofCodes codes)) fault behind
    | '/', '/' :: behind => .passed none (behind.dropWhile fun d => !isLineBreak d)
    | '/', '*' :: behind =>
      let (closed, behind) := skipComment behind
      .passed (if closed then none else some .unexpectedEndOfComment) behind
    | '/', _ => .passed (some .invalidSymbol) rest
    | '-', digit :: _ =>
      if digit.isDigit then
        let (value, fault, behind) := scanNumber true rest
        .token (.literal (.number value)) fault behind
      else .passed (some .invalidSymbol) rest
    | '-', [] => .passed (some .invalidSymbol) rest
    | _, _ =>
      if isSpace c then .passed none rest
      else if c.isDigit then
        let (value, fault, behind) := scanNumber false text
        .token (.literal (.number value)) fault behind
      else
        let behind := text.drop word.length
        if word = "true" then .token (.literal (.bool true)) none behind
        else if word = "false" then .token (.literal (.bool false)) none behind
        else if word = "null" then .token (.literal .null) none behind
        else .passed (some .invalidSymbol) behind

def run : Nat → Nat → List Problem → Text → List Token
  | 0, _, _, _ => []
  | fuel + 1, offset, problems, text =>
    match scan text with
    | .token kind fault rest =>
      let token : Token := ⟨kind, offset, problems ++ fault.toList.map fun fault => ⟨fault, offset⟩⟩
      match kind with
      | .endOfText => [token]
      | _ => token :: run fuel (offset + (Text.width text - Text.width rest)) [] rest
    | .passed fault rest =>
      run fuel (offset + (Text.width text - Text.width rest))
        (problems ++ fault.toList.map fun fault => ⟨fault, offset⟩) rest

end Lexer

/-- The tokens of a text. The last one is the end of the text. -/
def tokens (text : Text) : List Token := Lexer.run (text.length + 1) 0 [] text

end Crossref.Json

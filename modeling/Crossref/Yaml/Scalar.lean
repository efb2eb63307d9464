import Crossref.Text.Units
import Crossref.Yaml.Fault

/-! The texts that scalars stand for: plain and quoted ones with their line breaks folded, quoted
ones with their escapes resolved, and block scalars. -/

set_option autoImplicit false

namespace Crossref.Yaml.Scalar

def isBlank (c : Char) : Bool := c = ' ' || c = '\t'

def trimStart (line : Text) : Text := line.dropWhile isBlank

def trimEnd (line : Text) : Text := (line.reverse.dropWhile isBlank).reverse

def withoutReturn (line : Text) : Text :=
  if line.getLast? = some '\r' then line.dropLast else line

/-- Joins lines: one break becomes a space, and of several the first is dropped. -/
def foldRest (separator : Text) : List Text → Text
  | [] => []
  | [last] => separator ++ trimStart last
  | line :: rest =>
    let content := trimStart (trimEnd (withoutReturn line))
    if content.isEmpty then
      if separator = "\n" then "\n" ++ foldRest "\n" rest else foldRest "\n" rest
    else separator ++ content ++ foldRest " " rest

/-- Folds the lines of a flow scalar. A scalar on one line keeps its blanks. -/
def foldLines (source : Text) : Text :=
  match Text.pieces (· = '\n') source with
  | [] => []
  | [line] => line
  | first :: rest => trimEnd (withoutReturn first) ++ foldRest " " rest

def plain (source : Text) : Except Fault Text :=
  match source with
  | '\t' :: _ | ',' :: _ | '%' :: _ | '|' :: _ | '>' :: _ | '@' :: _ | '\u0060' :: _ =>
    .error .scalarStart
  | _ => .ok (foldLines source)

/-- Reads a doubled quote as one. -/
def undouble : Text → Text
  | '\'' :: '\'' :: rest => '\'' :: undouble rest
  | c :: rest => c :: undouble rest
  | [] => []

/-- What stands between the quotes, if the last character is the closing one. -/
def unquote (quote : Char) (source : Text) : Except Fault Text :=
  if source.getLast? = some quote && 1 < source.length then .ok (source.drop 1).dropLast
  else .error .unclosedQuote

def singleQuoted (source : Text) : Except Fault Text :=
  (unquote '\'' source).map fun inner => undouble (foldLines inner)

/-- The escapes of one character, by the character behind the backslash. -/
def escapes : List (Char × Char) :=
  [('0', '\x00'), ('a', '\x07'), ('b', '\x08'), ('e', '\x1b'), ('f', '\x0c'), ('n', '\n'),
   ('r', '\r'), ('t', '\t'), ('v', '\x0b'), ('N', '\u0085'), ('_', '\u00a0'), ('L', '\u2028'),
   ('P', '\u2029'), (' ', ' '), ('"', '"'), ('/', '/'), ('\\', '\\'), ('\t', '\t')]

/-- How many digits an escape by number has, by the character behind the backslash. -/
def escapeDigits? (c : Char) : Option Nat :=
  match c with
  | 'x' => some 2
  | 'u' => some 4
  | 'U' => some 8
  | _ => none

/-- The line breaks and blanks behind a line break, where the break itself is passed, and the
number of further breaks among them. -/
def foldBreaks : Text → Nat × Text
  | '\n' :: rest => let (further, behind) := foldBreaks rest; (further + 1, behind)
  | '\r' :: '\n' :: rest => let (further, behind) := foldBreaks rest; (further + 1, behind)
  | ' ' :: rest => foldBreaks rest
  | '\t' :: rest => foldBreaks rest
  | text => (0, text)

/-- The code points of a double-quoted scalar, behind its opening quote. The last character is the
closing quote unless an escape uses it up. -/
def unescape : Nat → Text → Except Fault (List Nat)
  | 0, _ => .ok []
  | _, [] => .ok []
  | _, [_] => .ok []
  | fuel + 1, c :: rest =>
    match c, rest with
    | '\r', '\n' :: _ => unescape fuel rest
    | '\n', _ =>
      let (further, behind) := foldBreaks rest
      let folded : List Nat := if further = 0 then [0x20] else List.replicate further 0x0A
      (unescape fuel behind).map (folded ++ ·)
    | '\\', '\n' :: behind => unescape fuel (trimStart behind)
    | '\\', '\r' :: '\n' :: behind => unescape fuel (trimStart behind)
    | '\\', next :: behind =>
      match List.lookup next escapes, escapeDigits? next with
      | some meant, _ => (unescape fuel behind).map (meant.toNat :: ·)
      | none, some count =>
        let digits := behind.take count
        match Text.hexNumber? digits with
        | some code =>
          if digits.length = count && code < 0x110000 then
            (unescape fuel (behind.drop count)).map (code :: ·)
          else .error .escape
        | none => .error .escape
      | none, none => .error .escape
    | _, _ =>
      if isBlank c then
        let run := rest.takeWhile isBlank
        let behind := rest.drop run.length
        let broken := match behind with
          | '\n' :: _ => true
          | '\r' :: '\n' :: _ => true
          | _ => false
        let shown := if broken then [] else (c :: run).map Char.toNat
        (unescape fuel behind).map (shown ++ ·)
      else (unescape fuel rest).map (c.toNat :: ·)

def doubleQuoted (source : Text) : Except Fault Text := do
  let _ ← unquote '"' source
  return Text.ofCodes (← unescape source.length (source.drop 1))

/-- What happens to the line breaks at the end of a block scalar. -/
inductive Chomp where
  | clip
  | strip
  | keep
deriving DecidableEq

structure BlockHeader where
  folded : Bool
  indent : Nat
  chomp : Chomp

/-- Reads a header such as `|2-`: a style, and at most one digit and one sign in any order. -/
def blockHeader (source : Text) : Except Fault BlockHeader :=
  let rec read (header : BlockHeader) : Text → Except Fault BlockHeader
    | [] => .ok header
    | c :: rest =>
      if header.chomp = .clip && c = '-' then read { header with chomp := .strip } rest
      else if header.chomp = .clip && c = '+' then read { header with chomp := .keep } rest
      else if header.indent = 0 && '1' ≤ c && c ≤ '9' then
        read { header with indent := c.toNat - '0'.toNat } rest
      else .error .blockHeader
  read ⟨source.head? = some '>', 0, .clip⟩ (source.drop 1)

/-- A line of a block scalar: the number of spaces it starts with, and the rest. -/
structure BlockLine where
  indent : Nat
  content : Text

def BlockLine.isEmpty (line : BlockLine) : Bool := line.content = [] || line.content = ['\r']

def BlockLine.ofText (line : Text) : BlockLine :=
  ⟨(line.takeWhile (· = ' ')).length, line.dropWhile (· = ' ')⟩

def spaces (count : Nat) : Text := List.replicate count ' '

/-- The column at which content starts, from the lines up to the first that is not empty. -/
def blockIndent (header : BlockHeader) (atRoot : Bool) (indent : Nat) :
    List BlockLine → Except Fault Nat
  | [] => .ok indent
  | line :: rest =>
    if line.isEmpty then
      blockIndent header atRoot (if header.indent = 0 then max indent line.indent else indent) rest
    else if line.indent < indent then .error .indentation
    else
      let indent := if header.indent = 0 then line.indent else indent
      if indent = 0 && !atRoot then .error .indentation else .ok indent

/-- Joins the lines of a folded block scalar. Lines that are indented further keep their breaks. -/
def foldBlock (indent : Nat) (separator : Text) (further : Bool) : List BlockLine → Text
  | [] => []
  | line :: rest =>
    let content := withoutReturn line.content
    if indent < line.indent || content.head? = some '\t' then
      let separator : Text :=
        if separator = " " then "\n" else if !further && separator = "\n" then "\n\n" else separator
      separator ++ spaces (line.indent - indent) ++ content ++ foldBlock indent "\n" true rest
    else if content.isEmpty then
      if separator = "\n" then '\n' :: foldBlock indent "\n" further rest
      else foldBlock indent "\n" further rest
    else separator ++ content ++ foldBlock indent " " false rest

def joinBlock (indent : Nat) (lines : List BlockLine) : Text :=
  Text.join "\n" (lines.map fun line => spaces (line.indent - indent) ++ withoutReturn line.content)

/-- The text of a block scalar, in a collection that is indented by `outer`. -/
def block (header : BlockHeader) (atRoot : Bool) (outer : Nat) (source : Text) :
    Except Fault Text := do
  let lines := if source.isEmpty then [] else (Text.pieces (· = '\n') source).map BlockLine.ofText
  let body := (lines.reverse.dropWhile BlockLine.isEmpty).reverse
  if body.isEmpty then
    return if header.chomp = .keep && !lines.isEmpty
      then List.replicate (max 1 (lines.length - 1)) '\n' else []
  let indent ← blockIndent header atRoot (outer + header.indent) body
  let trailing := (lines.drop body.length).reverse.dropWhile fun line => line.indent ≤ indent
  let content := body ++ trailing.reverse
  if content.any fun line => !line.isEmpty && line.indent < indent then throw .indentation
  let leading := content.takeWhile BlockLine.isEmpty
  let shown := content.drop leading.length
  let start := leading.flatMap fun line => spaces (line.indent - indent) ++ ['\n']
  let text := start ++ (if header.folded then foldBlock indent [] false shown else joinBlock indent shown)
  match header.chomp with
  | .strip => return text
  | .clip => return text ++ ['\n']
  | .keep =>
    let ending := (lines.drop content.length).flatMap fun line =>
      '\n' :: spaces (line.indent - indent)
    let text := text ++ ending
    return if text.getLast? = some '\n' then text else text ++ ['\n']

end Crossref.Yaml.Scalar

import Crossref.Text.Units

/-! The tokens of a YAML text. Together they cover it: blanks and line breaks are tokens too, and a
scalar is one token however many lines it spans. They are the tokens of the package yaml in release 2.9.1. -/

set_option autoImplicit false

namespace Crossref.Yaml

inductive TokenKind where
  /-- Marks where a document begins; it stands for no characters. -/
  | documentMode
  | documentStart
  | documentEnd
  /-- Marks where a flow collection is left unclosed; it stands for no characters. -/
  | flowCut
  | byteOrderMark
  | space
  | newline
  | comment
  | directive
  | anchor
  | tag
  | pointer
  | itemMark
  | keyMark
  | valueMark
  | mapOpen
  | mapClose
  | listOpen
  | listClose
  | comma
  | plain
  | singleQuoted
  | doubleQuoted
  | blockHeader
  | blockText
  /-- Characters that belong to no token. -/
  | stray
deriving DecidableEq

structure Piece where
  kind : TokenKind
  source : Text
deriving DecidableEq

namespace Lexer

/-- What the next characters may be. -/
inductive Mode where
  | stream
  | lineStart
  | blockStart
  | document
  | flow
deriving DecidableEq

/-- The column of the current line, the column that a continued scalar has to reach, the number of
open flow collections, and whether a colon may follow directly as after a quoted key. -/
structure State where
  column : Nat
  reach : Nat
  depth : Nat
  afterKey : Bool

structure Step where
  pieces : List Piece
  mode : Mode
  state : State
  rest : Text

/-- Whether a token may end here: at a blank, a line break or the end of the text. -/
def isGap : Option Char → Bool
  | none => true
  | some c => c = ' ' || c = '\t' || c = '\n' || c = '\r'

def isFlowIndicator (c : Char) : Bool := c = ',' || c = '[' || c = ']' || c = '{' || c = '}'

def isFlowIndicatorNext (next : Option Char) : Bool := next.any isFlowIndicator

def isAnchorPart (c : Char) : Bool := !isFlowIndicator c && !isGap (some c)

def isTagPart (c : Char) : Bool :=
  c.isAlphanum || ("-#;/?:@&=+$_.!~*'()" : Text).contains c

def isHexDigit (c : Char) : Bool :=
  c.isDigit || ('a' ≤ c && c ≤ 'f') || ('A' ≤ c && c ≤ 'F')

/-- A token of some characters, or none if there are none. -/
def piece (kind : TokenKind) (source : Text) : List Piece :=
  if source.isEmpty then [] else [⟨kind, source⟩]

def isSpace (c : Char) : Bool := c = ' '

def isSpaceOrTab (c : Char) : Bool := c = ' ' || c = '\t'

/-- The line break at the start of a text, which may be empty, and what follows it. -/
def lineBreak : Text → Text × Text
  | '\n' :: rest => (['\n'], rest)
  | '\r' :: '\n' :: rest => (['\r', '\n'], rest)
  | text => ([], text)

/-- The characters up to the next line break, and the text from that break on. -/
def restOfLine : Text → Text × Text
  | [] => ([], [])
  | '\n' :: rest => ([], '\n' :: rest)
  | '\r' :: '\n' :: rest => ([], '\r' :: '\n' :: rest)
  | c :: rest => let (line, behind) := restOfLine rest; (c :: line, behind)

def atLineBreak : Text → Bool
  | [] => true
  | '\n' :: _ => true
  | '\r' :: '\n' :: _ => true
  | _ => false

/-- The marker `---` or `...` in front of a gap. -/
def documentMarker? : Text → Option TokenKind
  | '-' :: '-' :: '-' :: rest => if isGap rest.head? then some .documentStart else none
  | '.' :: '.' :: '.' :: rest => if isGap rest.head? then some .documentEnd else none
  | _ => none

/-- Whether a scalar that has to reach a column goes on in a line. An empty line never ends it. At
column zero only a document marker does. -/
def continues (reach : Nat) (line : Text) : Bool :=
  if reach = 0 then (documentMarker? line).isNone
  else
    let indent := (line.takeWhile isSpace).length
    match line.dropWhile isSpace with
    | '\n' :: _ => true
    | '\r' :: '\n' :: _ => true
    | _ => reach ≤ indent

/-- The number of characters of a plain scalar, where `seen` characters were passed and the last
one that counts is the one before `stop`. -/
def plainLength (inFlow : Bool) (reach : Nat) (seen stop : Nat) : Text → Nat
  | [] => stop
  | ':' :: rest =>
    if isGap rest.head? || (inFlow && isFlowIndicatorNext rest.head?) then stop
    else plainLength inFlow reach (seen + 1) (seen + 1) rest
  | '\r' :: '\n' :: rest =>
    if rest.head? = some '#' || (inFlow && isFlowIndicatorNext rest.head?) then stop
    else if continues reach rest then plainLength inFlow reach (seen + 2) stop rest
    else stop
  | '\n' :: rest =>
    if rest.head? = some '#' || (inFlow && isFlowIndicatorNext rest.head?) then stop
    else if continues reach rest then plainLength inFlow reach (seen + 1) stop rest
    else stop
  | c :: rest =>
    if isGap (some c) then
      let stop := if c = '\r' then seen + 1 else stop
      if rest.head? = some '#' || (inFlow && isFlowIndicatorNext rest.head?) then stop
      else plainLength inFlow reach (seen + 1) stop rest
    else if inFlow && isFlowIndicator c then stop
    else plainLength inFlow reach (seen + 1) (seen + 1) rest

/-- The number of characters before the closing quote, which a doubled quote does not close. -/
def singleQuotedLength? (seen : Nat) : Text → Option Nat
  | [] => none
  | '\'' :: '\'' :: rest => singleQuotedLength? (seen + 2) rest
  | c :: rest => if c = '\'' then some seen else singleQuotedLength? (seen + 1) rest

/-- The number of characters before the closing quote, which an escaped quote does not close. -/
def doubleQuotedLength? (seen : Nat) : Text → Option Nat
  | [] => none
  | '\\' :: _ :: rest => doubleQuotedLength? (seen + 2) rest
  | c :: rest => if c = '"' then some seen else doubleQuotedLength? (seen + 1) rest

/-- The number of characters before the first of `limit` characters that breaks to a line in which
the scalar does not go on. -/
def cutLength? (reach : Nat) (seen : Nat) : Nat → Text → Option Nat
  | 0, _ => none
  | _, [] => none
  | limit + 1, c :: rest =>
    if c = '\n' && !continues reach rest then some seen
    else cutLength? reach (seen + 1) limit rest

/-- A quoted scalar. Without a closing quote it takes all the text, and if a line is not indented
enough it is cut off before that line. -/
def quoted (state : State) (quote : Char) (text : Text) : Piece × Text :=
  let inner := text.drop 1
  let kind : TokenKind := if quote = '"' then .doubleQuoted else .singleQuoted
  let closing? :=
    if quote = '"' then doubleQuotedLength? 0 inner else singleQuotedLength? 0 inner
  let length := match closing? with
    | none => text.length
    | some closing =>
      match cutLength? state.reach 0 closing inner with
      | none => closing + 2
      | some cut => if (inner.take cut).getLast? = some '\r' then cut else cut + 1
  (⟨kind, text.take length⟩, text.drop length)

/-- A tag: `!<...>`, or an exclamation mark and what a shorthand may contain. -/
def tagLength (seen : Nat) : Text → Nat
  | '%' :: first :: second :: rest =>
    if isHexDigit first && isHexDigit second then tagLength (seen + 3) rest else seen
  | c :: rest => if isTagPart c then tagLength (seen + 1) rest else seen
  | [] => seen

def tagSource (text : Text) : Text :=
  match text with
  | '!' :: '<' :: rest =>
    let inner := rest.takeWhile fun c => !isGap (some c) && c ≠ '>'
    let closing : Text := if (rest.drop inner.length).head? = some '>' then ['>'] else []
    '!' :: '<' :: inner ++ closing
  | _ => text.take (tagLength 1 (text.drop 1))

/-- Tags, anchors and indicators in front of a node, each with the blanks behind it. -/
def indicators : Nat → State → Text → List Piece × State × Text
  | 0, state, text => ([], state, text)
  | fuel + 1, state, text =>
    let goOn (kind : TokenKind) (source : Text) (state : State) : List Piece × State × Text :=
      let behind := text.drop source.length
      let blank := behind.takeWhile isSpaceOrTab
      let (more, state, rest) := indicators fuel state (behind.drop blank.length)
      (⟨kind, source⟩ :: piece .space blank ++ more, state, rest)
    match text with
    | '!' :: _ => goOn .tag (tagSource text) state
    | '&' :: rest => goOn .anchor ('&' :: rest.takeWhile isAnchorPart) state
    | c :: rest =>
      let inFlow := 0 < state.depth
      if (c = '-' || c = '?' || c = ':') &&
          (isGap rest.head? || (inFlow && isFlowIndicatorNext rest.head?)) then
        let kind : TokenKind :=
          if c = '-' then .itemMark else if c = '?' then .keyMark else .valueMark
        goOn kind [c]
          (if inFlow then { state with afterKey := false }
            else { state with reach := state.column + 1 })
      else ([], state, text)
    | [] => ([], state, text)

/-- The lines of a text with their line feeds; the last one has none and may be empty. -/
def feedLines : Text → List Text
  | [] => [[]]
  | '\n' :: rest => ['\n'] :: feedLines rest
  | c :: rest =>
    match feedLines rest with
    | [] => [[c]]
    | line :: more => (c :: line) :: more

def withoutBreak (line : Text) : Text :=
  match line.reverse with
  | '\n' :: '\r' :: rest => rest.reverse
  | '\n' :: rest => rest.reverse
  | _ => line

/-- Drops lines from the end that hold nothing but at most `indent` spaces. The first line stays. -/
def dropBlankEnd (indent : Nat) (lines : List Text) : List Text :=
  let isDroppable (line : Text) : Bool :=
    let content := withoutBreak line
    content.all isSpace && content.length ≤ indent
  match lines with
  | [] => []
  | first :: rest => first :: (rest.reverse.dropWhile isDroppable).reverse

/-- The text of a block scalar, which starts at a line, and what follows it. -/
def blockText (state : State) (explicit? : Option Nat) (keep : Bool) (text : Text) :
    Text × State × Text :=
  let lines := feedLines text
  let isBlank (line : Text) : Bool :=
    line.getLast? = some '\n' && (withoutBreak line).all isSpace
  let leading := lines.takeWhile isBlank
  let further := lines.dropWhile isBlank
  let indent := ((further.headD []).takeWhile isSpace).length
  let (included, state) :=
    if state.reach ≤ indent then
      let reach := match explicit? with
        | none => indent
        | some extra => extra - 1 + (if state.reach = 0 then 1 else state.reach)
      let body := further.takeWhile (fun line => !line.isEmpty && continues reach line)
      (leading ++ body, { state with reach := reach })
    else (leading, state)
  let behind := (lines.drop included.length).flatten
  if (behind.dropWhile isSpace).head? = some '\t' then
    let tabs := behind.takeWhile fun c => isGap (some c)
    (included.flatten ++ tabs, state, behind.drop tabs.length)
  else
    let kept := if keep then included else dropBlankEnd indent included
    (kept.flatten, state, text.drop kept.flatten.length)

/-- A block scalar: its header, the rest of the header's line, and its text. -/
def blockScalar (state : State) (text : Text) : Step :=
  let header := text.takeWhile fun c => !isGap (some c) && c ≠ '#'
  let signs := (header.drop 1).takeWhile fun c => c = '+' || c = '-' || ('1' ≤ c && c ≤ '9')
  let explicit? := (signs.filter Char.isDigit).getLast?.map fun c => c.toNat - '0'.toNat
  let behind := text.drop header.length
  let blank := behind.takeWhile isSpaceOrTab
  let (line, broken) := restOfLine (behind.drop blank.length)
  let lineKind : TokenKind := if line.head? = some '#' then .comment else .stray
  let (feed, body) := lineBreak broken
  let (source, state, rest) := blockText state explicit? (signs.contains '+') body
  { pieces := ⟨.blockHeader, header⟩ :: piece .space blank ++ piece lineKind line ++
      piece .newline feed ++ [⟨.blockText, source⟩]
    mode := .lineStart
    state := state
    rest := rest }

/-- A plain scalar, which is at least one character long. -/
def plainScalar (state : State) (mode : Mode) (text : Text) : Step :=
  let length := max 1 (plainLength (0 < state.depth) state.reach 0 0 text)
  { pieces := [⟨.plain, text.take length⟩], mode := mode, state := state, rest := text.drop length }

def comment (text : Text) : List Piece × Text :=
  let (line, rest) := restOfLine text
  (piece .comment line, rest)

/-- The length of a directive: up to a comment that follows a blank, without blanks at its end. -/
def directiveLength (line : Text) : Nat :=
  let rec cut (previous : Char) : Text → Text
    | [] => []
    | c :: rest => if c = '#' && isSpaceOrTab previous then [] else c :: cut c rest
  let source := cut '%' line
  (source.reverse.dropWhile isSpaceOrTab).length

/-- One line between documents, or the start of a document. -/
def streamStep (state : State) (text : Text) : Step :=
  let (mark, text) := match text with
    | '\uFEFF' :: rest => ([(⟨.byteOrderMark, ['\uFEFF']⟩ : Piece)], rest)
    | _ => ([], text)
  let blank := text.takeWhile isSpaceOrTab
  let behind := text.drop blank.length
  if text.head? = some '%' then
    let (line, broken) := restOfLine text
    let length := directiveLength line
    let gap := (line.drop length).takeWhile isSpaceOrTab
    let remark := line.drop (length + gap.length)
    let (feed, rest) := lineBreak broken
    { pieces := mark ++ ⟨.directive, line.take length⟩ :: piece .space gap ++
        piece .comment remark ++ piece .newline feed
      mode := .stream, state := state, rest := rest }
  else if behind.head? = some '#' || atLineBreak behind then
    let (remark, broken) := comment behind
    let (feed, rest) := lineBreak broken
    { pieces := mark ++ piece .space blank ++ remark ++ piece .newline feed
      mode := .stream, state := state, rest := rest }
  else
    { pieces := mark ++ [⟨.documentMode, []⟩], mode := .lineStart, state := state, rest := text }

def lineStartStep (state : State) (text : Text) : Step :=
  match documentMarker? text with
  | some kind =>
    { pieces := [⟨kind, text.take 3⟩]
      mode := if kind = .documentStart then .document else .stream
      state := { state with column := 0, reach := 0 }
      rest := text.drop 3 }
  | none =>
    let indent := text.takeWhile isSpace
    let behind := text.drop indent.length
    let reach :=
      if indent.length < state.reach && !isGap (behind.drop 1).head? then indent.length
      else state.reach
    { pieces := piece .space indent, mode := .blockStart
      state := { state with column := indent.length, reach := reach }, rest := behind }

def blockStartStep (state : State) (text : Text) : Step :=
  match text with
  | c :: rest =>
    if (c = '-' || c = '?' || c = ':') && isGap rest.head? then
      let kind : TokenKind :=
        if c = '-' then .itemMark else if c = '?' then .keyMark else .valueMark
      let blank := rest.takeWhile isSpaceOrTab
      { pieces := ⟨kind, [c]⟩ :: piece .space blank, mode := .blockStart
        state :=
          { state with reach := state.column + 1, column := state.column + 1 + blank.length }
        rest := rest.drop blank.length }
    else { pieces := [], mode := .document, state := state, rest := text }
  | [] => { pieces := [], mode := .document, state := state, rest := text }

/-- A node of a block, with what stands in front of it. -/
def documentStep (state : State) (text : Text) : Step :=
  let blank := text.takeWhile isSpaceOrTab
  let start := text.drop blank.length
  let (marks, state, behind) := indicators start.length state start
  let front := piece .space blank ++ marks
  let after (step : Step) : Step := { step with pieces := front ++ step.pieces }
  if atLineBreak behind then
    let (feed, rest) := lineBreak behind
    after { pieces := piece .newline feed, mode := .lineStart, state := state, rest := rest }
  else
    match behind with
    | [] => after { pieces := [], mode := .lineStart, state := state, rest := [] }
    | c :: rest =>
      let single (kind : TokenKind) (mode : Mode) (state : State) : Step :=
        after { pieces := [⟨kind, [c]⟩], mode := mode, state := state, rest := rest }
      let opened := { state with afterKey := false, depth := 1 }
      match c with
      | '#' =>
        let (remark, broken) := comment behind
        let (feed, rest) := lineBreak broken
        after { pieces := remark ++ piece .newline feed, mode := .lineStart, state := state,
                rest := rest }
      | '{' => single .mapOpen .flow opened
      | '[' => single .listOpen .flow opened
      | '}' => single .mapClose .document state
      | ']' => single .listClose .document state
      | '*' =>
        let name := rest.takeWhile isAnchorPart
        after { pieces := [⟨.pointer, c :: name⟩], mode := .document, state := state,
                rest := rest.drop name.length }
      | '"' | '\'' =>
        let (found, rest) := quoted state c behind
        after { pieces := [found], mode := .document, state := state, rest := rest }
      | '|' | '>' => after (blockScalar state behind)
      | _ => after (plainScalar state .document behind)

/-- Line breaks and blanks between the parts of a flow collection, and the column of the last line
that they start. -/
def flowGap : Nat → Option Nat → Text → List Piece × Option Nat × Text
  | 0, column?, text => ([], column?, text)
  | fuel + 1, column?, text =>
    let (feed, behind) := lineBreak text
    let indent := if feed.isEmpty then [] else behind.takeWhile isSpace
    let column? := if feed.isEmpty then column? else some indent.length
    let behind := behind.drop indent.length
    let blank := behind.takeWhile isSpaceOrTab
    let passed := feed.length + indent.length + blank.length
    if passed = 0 then ([], column?, text)
    else
      let (more, column?, rest) := flowGap fuel column? (behind.drop blank.length)
      (piece .newline feed ++ piece .space indent ++ piece .space blank ++ more, column?, rest)

def flowCommas : Text → Nat → List Piece × Text
  | text, 0 => ([], text)
  | text, fuel + 1 =>
    match text with
    | ',' :: rest =>
      let blank := rest.takeWhile isSpaceOrTab
      let (more, behind) := flowCommas (rest.drop blank.length) fuel
      (⟨.comma, [',']⟩ :: piece .space blank ++ more, behind)
    | _ => ([], text)

/-- A part of a flow collection. A line that is not indented enough cuts the collection off, except
for the closing bracket of the outermost collection, which may stand one column further left. -/
def flowStep (state : State) (text : Text) : Step :=
  let (gap, column?, text) := flowGap text.length none text
  let state := match column? with
    | some column => { state with column := column }
    | none => state
  let next := text.head?
  let isCut := match column? with
    | none => false
    | some column =>
      ((column < state.reach && next ≠ some '#') ||
          (column = 0 && (documentMarker? text).isSome)) &&
        !(column + 1 = state.reach && state.depth = 1 && (next = some ']' || next = some '}'))
  if isCut then
    { pieces := gap ++ [⟨.flowCut, []⟩], mode := .lineStart, state := { state with depth := 0 }
      rest := text }
  else
    let (commas, start) := flowCommas text text.length
    let state := if commas.isEmpty then state else { state with afterKey := false }
    let (marks, state, behind) := indicators start.length state start
    let front := gap ++ commas ++ marks
    let after (step : Step) : Step := { step with pieces := front ++ step.pieces }
    if atLineBreak behind then
      after { pieces := [], mode := .flow, state := state, rest := behind }
    else
      match behind with
      | [] => after { pieces := [], mode := .flow, state := state, rest := [] }
      | c :: rest =>
        let single (kind : TokenKind) (state : State) : Step :=
          after { pieces := [⟨kind, [c]⟩], mode := if state.depth = 0 then .document else .flow,
                  state := state, rest := rest }
        let opened := { state with afterKey := false, depth := state.depth + 1 }
        let closed := { state with afterKey := true, depth := state.depth - 1 }
        let plain := after (plainScalar { state with afterKey := false } .flow behind)
        match c with
        | '#' =>
          let (remark, rest) := comment behind
          after { pieces := remark, mode := .flow, state := state, rest := rest }
        | '{' => single .mapOpen opened
        | '[' => single .listOpen opened
        | '}' => single .mapClose closed
        | ']' => single .listClose closed
        | '*' =>
          let name := rest.takeWhile isAnchorPart
          after { pieces := [⟨.pointer, c :: name⟩], mode := .flow, state := state,
                  rest := rest.drop name.length }
        | '"' | '\'' =>
          let (found, rest) := quoted { state with afterKey := true } c behind
          after { pieces := [found], mode := .flow, state := { state with afterKey := true },
                  rest := rest }
        | ':' =>
          if state.afterKey || isGap rest.head? || rest.head? = some ',' then
            let blank := rest.takeWhile isSpaceOrTab
            after { pieces := ⟨.valueMark, [c]⟩ :: piece .space blank, mode := .flow,
                    state := { state with afterKey := false }, rest := rest.drop blank.length }
          else plain
        | _ => plain

def step (mode : Mode) (state : State) (text : Text) : Step :=
  match mode with
  | .stream => streamStep state text
  | .lineStart => lineStartStep state text
  | .blockStart => blockStartStep state text
  | .document => documentStep state text
  | .flow => flowStep state text

/-- The tokens from a mode on, in at most `fuel` steps. -/
def run : Nat → Mode → State → Text → List Piece
  | 0, _, _, _ => []
  | _ + 1, _, _, [] => []
  | fuel + 1, mode, state, text =>
    let found := step mode state text
    found.pieces ++ run fuel found.mode found.state found.rest

end Lexer

/-- The tokens of a text. At most three steps pass between two characters. -/
def tokens (text : Text) : List Piece :=
  Lexer.run (4 * text.length + 4) .stream ⟨0, 0, 0, false⟩ text

end Crossref.Yaml

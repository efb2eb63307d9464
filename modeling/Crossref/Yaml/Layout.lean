import Crossref.Yaml.Token

/-! How the tokens of a YAML text nest. Collections in block style are open for as long as tokens
are indented at least as far as they are; a colon behind a node turns the node into the first key
of a mapping. Nothing is interpreted here: tags, quotes and misplaced tokens stay as they are. This is how release
2.9.1 of the package yaml nests them. -/

set_option autoImplicit false

namespace Crossref.Yaml

/-- A token, its offset, and the column up to which its line is indentation. -/
structure Mark extends Piece where
  indent : Nat
  offset : Nat
deriving DecidableEq

/-- An entry of a collection: what stands in front of a key, the key, what stands between key and
value, and the value. A list item has a value only. -/
structure ItemOf (α : Type) where
  start : List Mark
  explicitKey : Bool
  key : Option α
  separator : Option (List Mark)
  value : Option α

namespace ItemOf

variable {α : Type}

/-- An entry of which only the front is known. -/
def ofStart (start : List Mark) : ItemOf α := ⟨start, false, none, none, none⟩

/-- An entry whose key is complete, possibly empty. -/
def ofKey (start : List Mark) (key : Option α) (separator : List Mark) : ItemOf α :=
  ⟨start, false, key, some separator, none⟩

end ItemOf

/-- A node as it is written. -/
inductive Form where
  /-- An alias, a plain scalar or a quoted scalar, and the tokens behind it. -/
  | flat (mark : Mark) (tail : List Mark)
  /-- A block scalar: header, its line, and the lines below, in a collection of this indentation. -/
  | block (header : List Mark) (text : Text) (indent : Nat)
  /-- A collection in brackets, and the tokens from its closing bracket on. -/
  | flow (opening : Mark) (indent : Nat) (items : List (ItemOf Form)) (tail : List Mark)
  | mapping (indent : Nat) (items : List (ItemOf Form))
  | sequence (indent : Nat) (items : List (ItemOf Form))

abbrev Item := ItemOf Form

/-- Numbers the tokens of a text. Blanks and block indicators indent a line until anything else
stands in it. -/
def marksFrom (offset : Nat) (atLineStart : Bool) (indent : Nat) : List Piece → List Mark
  | [] => []
  | piece :: rest =>
    let next := offset + Text.width piece.source
    let (starts, column) : Bool × Nat :=
      match piece.kind with
      | .newline | .blockText => (true, 0)
      | .space =>
        (atLineStart,
          if atLineStart && piece.source.head? = some ' ' then indent + piece.source.length
          else indent)
      | .keyMark | .valueMark | .itemMark =>
        (atLineStart, if atLineStart then indent + piece.source.length else indent)
      | .documentMode | .flowCut => (atLineStart, indent)
      | _ => (false, indent)
    ⟨piece, indent, offset⟩ :: marksFrom next starts column rest

def marks (text : Text) : List Mark := marksFrom 0 true 0 (tokens text)

/-- Whether a token holds no content. -/
def Mark.isBlank (mark : Mark) : Bool :=
  mark.kind = .space || mark.kind = .comment || mark.kind = .newline

def hasKind (kind : TokenKind) (marks : List Mark) : Bool := marks.any fun mark => mark.kind = kind

/-- A part of a YAML stream. -/
inductive Part where
  | directive (mark : Mark)
  | document (start : List Mark) (value : Option Form) (tail : List Mark)
  | documentEnd (tail : List Mark)

/-- What is open: a document, the line of a document end, or a node. -/
inductive Frame where
  | document (start : List Mark) (value : Option Form) (tail : List Mark)
  | documentEnd (tail : List Mark)
  | node (form : Form)

namespace Layout

/-- The open frames, innermost first, whether the line of the current key is still being read, and
the parts that are complete, latest first. -/
structure State where
  stack : List Frame
  onKeyLine : Bool
  parts : List Part

def setLast {α : Type} (items : List α) (item : α) : List α := items.dropLast ++ [item]

def emptyItem : Item := .ofStart []

/-- Moves what follows a lone node in a list in brackets behind that node. -/
def settleListItem (item : Item) : Item :=
  match item.separator with
  | some separator =>
    if item.value.isNone && !hasKind .keyMark item.start && !hasKind .valueMark separator then
      match item.key with
      | some (.flat mark tail) =>
        { item with key := none, separator := none, value := some (.flat mark (tail ++ separator)) }
      | some (.flow opening indent items tail) =>
        { item with
          key := none, separator := none
          value := some (.flow opening indent items (tail ++ separator)) }
      | other =>
        { item with
          start := item.start ++ separator, key := none, separator := none
          value := other.orElse fun _ => item.value }
    else item
  | none => item

/-- A node with all that is only known when it is complete. -/
def settle (parent : Frame) : Form → Form
  | .block header text _ =>
    .block header text <|
      match parent with
      | .node (.mapping indent _) | .node (.sequence indent _) | .node (.flow _ indent _ _)
      | .node (.block _ _ indent) => indent
      | .node (.flat mark _) => mark.indent
      | _ => 0
  | .flow opening indent items tail =>
    let items := if opening.kind = .listOpen then items.map settleListItem else items
    let indent := match parent with
      | .document .. => 0
      | _ => indent
    .flow opening indent items tail
  | form => form

/-- Takes the blank tokens behind the last entry out of a block collection. -/
def splitTrailing (form : Form) : Form × List Mark :=
  let split (indent : Nat) (items : List Item) (rebuild : List Item → Form) : Form × List Mark :=
    match items.getLast? with
    | some last =>
      if last.separator.isNone && last.value.isNone && !last.start.isEmpty &&
          last.start.all Mark.isBlank &&
          (indent = 0 ||
            last.start.all fun mark => mark.kind ≠ .comment || mark.indent < indent) then
        (rebuild items.dropLast, last.start)
      else (form, [])
    | none => (form, [])
  match form with
  | .mapping indent items => split indent items (.mapping indent)
  | .sequence indent items => split indent items (.sequence indent)
  | _ => (form, [])

/-- Closes the innermost frame and puts it where its parent expects the next node. -/
def pop (state : State) : State :=
  match state.stack with
  | [] => state
  | .document start value tail :: rest =>
    { state with stack := rest, parts := .document start value tail :: state.parts }
  | .documentEnd tail :: rest =>
    { state with stack := rest, parts := .documentEnd tail :: state.parts }
  | .node form :: [] => { state with stack := [], parts := .document [] (some form) [] :: state.parts }
  | .node form :: parent :: rest =>
    let form := settle parent form
    let (body, trailing) := splitTrailing form
    match parent with
    | .document start _ tail =>
      let tail := if trailing.isEmpty then tail else trailing
      { state with stack := .document start (some body) tail :: rest }
    | .node (.mapping indent items) =>
      let last := items.getLast?.getD emptyItem
      if last.value.isSome then
        { state with
          stack := .node (.mapping indent (items ++ [.ofKey [] (some form) []])) :: rest
          onKeyLine := true }
      else if last.separator.isSome then
        let filled := setLast items { last with value := some body }
        let items := if trailing.isEmpty then filled else filled ++ [.ofStart trailing]
        { state with stack := .node (.mapping indent items) :: rest }
      else
        let keyed := setLast items { last with key := some form, separator := some [] }
        { state with
          stack := .node (.mapping indent keyed) :: rest, onKeyLine := !last.explicitKey }
    | .node (.sequence indent items) =>
      let last := items.getLast?.getD emptyItem
      let filled :=
        if last.value.isSome then items ++ [{ emptyItem with value := some body }]
        else setLast items { last with value := some body }
      let items := if trailing.isEmpty then filled else filled ++ [.ofStart trailing]
      { state with stack := .node (.sequence indent items) :: rest }
    | .node (.flow opening indent items tail) =>
      let items := match items.getLast? with
        | none => [.ofKey [] (some form) []]
        | some last =>
          if last.value.isSome then items ++ [.ofKey [] (some form) []]
          else if last.separator.isSome then setLast items { last with value := some form }
          else setLast items { last with key := some form, separator := some [] }
      { state with stack := .node (.flow opening indent items tail) :: rest }
    | _ => { state with stack := .node form :: rest }

/-- Splits tokens behind the last indicator or line break, and drops the blanks at the split. -/
def splitKeyStart (marks : List Mark) : List Mark × List Mark :=
  let isBound (mark : Mark) : Bool :=
    mark.kind = .documentStart || mark.kind = .keyMark || mark.kind = .valueMark ||
    mark.kind = .itemMark || mark.kind = .newline
  let own := (marks.reverse.takeWhile fun mark => !isBound mark).reverse
  let start := own.dropWhile fun mark => mark.kind = .space
  (marks.take (marks.length - start.length), start)

/-- Takes the properties of a first key away from the frame that collected them. -/
def takeKeyStart (frame : Frame) : Frame × List Mark :=
  match frame with
  | .document start value tail =>
    let (kept, taken) := splitKeyStart start
    (.document kept value tail, taken)
  | .node (.mapping indent items) =>
    let last := items.getLast?.getD emptyItem
    match last.separator with
    | some separator =>
      let (kept, taken) := splitKeyStart separator
      (.node (.mapping indent (setLast items { last with separator := some kept })), taken)
    | none =>
      let (kept, taken) := splitKeyStart last.start
      (.node (.mapping indent (setLast items { last with start := kept })), taken)
  | .node (.sequence indent items) =>
    let last := items.getLast?.getD emptyItem
    let (kept, taken) := splitKeyStart last.start
    (.node (.sequence indent (setLast items { last with start := kept })), taken)
  | _ => (frame, [])

/-- The node that a token starts inside `parent`, with what is left of the parent. -/
def startNode? (parent : Frame) (mark : Mark) : Option (Frame × Form) :=
  match mark.kind with
  | .pointer | .plain | .singleQuoted | .doubleQuoted | .blockText => some (parent, .flat mark [])
  | .blockHeader => some (parent, .block [mark] [] mark.indent)
  | .mapOpen | .listOpen => some (parent, .flow mark mark.indent [] [])
  | .itemMark => some (parent, .sequence mark.indent [.ofStart [mark]])
  | .keyMark =>
    let (parent, start) := takeKeyStart parent
    some (parent, .mapping mark.indent [⟨start ++ [mark], true, none, none, none⟩])
  | .valueMark =>
    let (parent, start) := takeKeyStart parent
    some (parent, .mapping mark.indent [.ofKey start none [mark]])
  | _ => none

/-- What a token does to the innermost frame: it is taken up, or the frame is closed first, or it
has no place. -/
inductive Move where
  | take (state : State)
  | close (state : State)
  | reject

/-- A token outside of every document. -/
def stream (state : State) (mark : Mark) : Move :=
  match mark.kind with
  | .directive => .take { state with parts := .directive mark :: state.parts }
  | .byteOrderMark | .space | .comment | .newline => .take state
  | .documentMode => .take { state with stack := [.document [] none []] }
  | .documentStart => .take { state with stack := [.document [mark] none []] }
  | _ => .reject

/-- A token behind a complete node. `extend` puts it at the end of the node. -/
def lineEnd (state : State) (mark : Mark) (extended : Frame) (rest : List Frame) : Move :=
  match mark.kind with
  | .comma | .documentStart | .documentEnd | .listClose | .mapClose | .valueMark => .close state
  | .newline => .take (pop { state with stack := extended :: rest, onKeyLine := false })
  | _ => .take { state with stack := extended :: rest }

def push (state : State) (frames : List Frame) : Move := .take { state with stack := frames }

/-- Starts a node inside `parent`, which is the innermost frame. -/
def start? (state : State) (mark : Mark) (parent : Frame) (rest : List Frame) : Option Move :=
  (startNode? parent mark).map fun (parent, form) =>
    let onKeyLine := state.onKeyLine || mark.kind = .keyMark || mark.kind = .valueMark
    push { state with onKeyLine := onKeyLine } (.node form :: parent :: rest)

def inDocument (state : State) (mark : Mark) (start : List Mark) (value : Option Form)
    (tail : List Mark) (rest : List Frame) : Move :=
  if value.isSome then lineEnd state mark (.document start value (tail ++ [mark])) rest
  else
    match mark.kind with
    | .documentStart =>
      if start.all Mark.isBlank then push state (.document (start ++ [mark]) none tail :: rest)
      else .close state
    | .anchor | .tag | .space | .comment | .newline =>
      push state (.document (start ++ [mark]) none tail :: rest)
    | _ => (start? state mark (.document start none tail) rest).getD .reject

def inFlat (state : State) (mark : Mark) (own : Mark) (tail : List Mark) (rest : List Frame) :
    Move :=
  if mark.kind = .valueMark then
    match rest with
    | parent :: above =>
      let (parent, start) := takeKeyStart parent
      let map : Form := .mapping own.indent [.ofKey start (some (.flat own [])) (tail ++ [mark])]
      push { state with onKeyLine := true } (.node map :: parent :: above)
    | [] => .reject
  else lineEnd state mark (.node (.flat own (tail ++ [mark]))) rest

def inBlock (state : State) (mark : Mark) (header : List Mark) (indent : Nat)
    (rest : List Frame) : Move :=
  match mark.kind with
  | .space | .comment | .newline => push state (.node (.block (header ++ [mark]) [] indent) :: rest)
  | .blockText =>
    .take (pop { state with stack := .node (.block header mark.source indent) :: rest })
  | _ => .close state

def endsInComment (form : Form) : Bool :=
  let last? := match form with
    | .flat _ tail => tail.getLast?
    | .flow _ _ _ tail => tail.getLast?
    | _ => none
  last?.any fun mark => mark.kind = .comment

/-- Puts a token at the end of a node. -/
def appendTail (mark : Mark) : Form → Form
  | .flat own tail => .flat own (tail ++ [mark])
  | .flow opening indent items tail => .flow opening indent items (tail ++ [mark])
  | form => form

def isFlowForm : Option Form → Bool
  | some (.flat ..) => true
  | some (.flow ..) => true
  | _ => false

/-- The tokens behind the second line break of a separator, which belong to the next key if
nothing but blank lines and unindented comments stand there. -/
def splitSeparator (indent : Nat) (separator : List Mark) : List Mark × List Mark :=
  let breaks := separator.zipIdx.foldl (fun breaks (mark, index) =>
    match mark.kind with
    | .newline => breaks ++ [index]
    | .space => breaks
    | .comment => if indent < mark.indent then [] else breaks
    | _ => []) ([] : List Nat)
  match breaks with
  | _ :: second :: _ => (separator.take second, separator.drop second)
  | _ => (separator, [])

def inMapping (state : State) (mark : Mark) (indent : Nat) (items : List Item)
    (rest : List Frame) : Move :=
  let last := items.getLast?.getD emptyItem
  let hold (items : List Item) : Move := push state (.node (.mapping indent items) :: rest)
  let holdKey (items : List Item) : Move :=
    push { state with onKeyLine := true } (.node (.mapping indent items) :: rest)
  let append : Move :=
    match last.separator with
    | some separator => hold (setLast items { last with separator := some (separator ++ [mark]) })
    | none => hold (setLast items { last with start := last.start ++ [mark] })
  match mark.kind with
  | .newline =>
    let state := { state with onKeyLine := false }
    match last.value with
    | some value =>
      let items :=
        if endsInComment value then setLast items { last with value := some (appendTail mark value) }
        else items ++ [.ofStart [mark]]
      push state (.node (.mapping indent items) :: rest)
    | none =>
      match append with
      | .take after => .take { after with onKeyLine := false }
      | other => other
  | .space | .comment => if last.value.isSome then hold (items ++ [.ofStart [mark]]) else append
  | _ =>
    if mark.indent < indent then .close state
    else
      let atIndent := !state.onKeyLine && mark.indent = indent
      let atNext := atIndent && (last.separator.isSome || last.explicitKey) && mark.kind ≠ .itemMark
      let (last, start) :=
        match atNext && last.value.isNone, last.separator with
        | true, some separator =>
          let (kept, moved) := splitSeparator indent separator
          ({ last with separator := some kept }, moved)
        | _, _ => (last, [])
      let items := setLast items last
      let nested (inner : Item) : Move :=
        push { state with onKeyLine := true }
          (.node (.mapping mark.indent [inner]) :: .node (.mapping indent items) :: rest)
      match mark.kind with
      | .anchor | .tag =>
        if atNext || last.value.isSome then holdKey (items ++ [.ofStart (start ++ [mark])])
        else
          match last.separator with
          | some separator =>
            hold (setLast items { last with separator := some (separator ++ [mark]) })
          | none => hold (setLast items { last with start := last.start ++ [mark] })
      | .keyMark =>
        if last.separator.isNone && !last.explicitKey then
          holdKey (setLast items { last with start := last.start ++ [mark], explicitKey := true })
        else if atNext || last.value.isSome then
          holdKey (items ++ [⟨start ++ [mark], true, none, none, none⟩])
        else nested ⟨[mark], true, none, none, none⟩
      | .valueMark =>
        match last.explicitKey, last.separator with
        | true, none =>
          if hasKind .newline last.start then
            holdKey (setLast items { last with key := none, separator := some [mark] })
          else
            let (kept, taken) := splitKeyStart last.start
            push { state with onKeyLine := true }
              (.node (.mapping mark.indent [.ofKey taken none [mark]]) ::
                .node (.mapping indent (setLast items { last with start := kept })) :: rest)
        | true, some separator =>
          if last.value.isSome then holdKey (items ++ [.ofKey [] none [mark]])
          else if hasKind .valueMark separator then nested (.ofKey start none [mark])
          else if isFlowForm last.key && !hasKind .newline separator then
            let (kept, taken) := splitKeyStart last.start
            let bare := { last with start := kept, key := none, separator := none }
            push { state with onKeyLine := true }
              (.node (.mapping mark.indent [.ofKey taken last.key (separator ++ [mark])]) ::
                .node (.mapping indent (setLast items bare)) :: rest)
          else
            holdKey (setLast items { last with separator := some (separator ++ start ++ [mark]) })
        | false, none => holdKey (setLast items { last with key := none, separator := some [mark] })
        | false, some separator =>
          if last.value.isSome || atNext then holdKey (items ++ [.ofKey start none [mark]])
          else if hasKind .valueMark separator then nested (.ofKey [] none [mark])
          else holdKey (setLast items { last with separator := some (separator ++ [mark]) })
      | .pointer | .plain | .singleQuoted | .doubleQuoted | .blockText =>
        if atNext || last.value.isSome then
          holdKey (items ++ [.ofKey start (some (.flat mark [])) []])
        else if last.separator.isSome then
          push state (.node (.flat mark []) :: .node (.mapping indent items) :: rest)
        else holdKey (setLast items { last with key := some (.flat mark []), separator := some [] })
      | .itemMark =>
        if !last.explicitKey && last.separator.any (fun found => !hasKind .newline found) then .reject
        else (start? state mark (.node (.mapping indent items)) rest).getD .reject
      | _ =>
        let items := if atIndent then items ++ [.ofStart start] else items
        (start? state mark (.node (.mapping indent items)) rest).getD (.close state)

def inSequence (state : State) (mark : Mark) (indent : Nat) (items : List Item)
    (rest : List Frame) : Move :=
  let last := items.getLast?.getD emptyItem
  let hold (items : List Item) : Move := push state (.node (.sequence indent items) :: rest)
  let append : Move := hold (setLast items { last with start := last.start ++ [mark] })
  let further : Move :=
    if indent < mark.indent then
      (start? state mark (.node (.sequence indent items)) rest).getD (.close state)
    else .close state
  match mark.kind with
  | .newline =>
    match last.value with
    | some value =>
      if endsInComment value then
        hold (setLast items { last with value := some (appendTail mark value) })
      else hold (items ++ [.ofStart [mark]])
    | none => append
  | .space | .comment => if last.value.isSome then hold (items ++ [.ofStart [mark]]) else append
  | .anchor | .tag => if last.value.isSome || mark.indent ≤ indent then further else append
  | .itemMark =>
    if mark.indent ≠ indent then further
    else if last.value.isSome || hasKind .itemMark last.start then hold (items ++ [.ofStart [mark]])
    else append
  | _ => further

/-- Closes a collection that is cut off, and every collection in brackets around it. -/
def popFlows : Nat → State → State
  | 0, state => state
  | fuel + 1, state =>
    let state := pop state
    match state.stack with
    | .node (.flow ..) :: _ => popFlows fuel state
    | _ => state

def inFlow (state : State) (mark : Mark) (opening : Mark) (indent : Nat) (items : List Item)
    (tail : List Mark) (rest : List Frame) : Move :=
  let last? := items.getLast?
  let last := last?.getD emptyItem
  let hold (items : List Item) : Move := push state (.node (.flow opening indent items tail) :: rest)
  if mark.kind = .flowCut then .take (popFlows state.stack.length state)
  else if tail.isEmpty then
    match mark.kind with
    | .comma | .keyMark =>
      if last?.isNone || last.separator.isSome then hold (items ++ [.ofStart [mark]])
      else hold (setLast items { last with start := last.start ++ [mark] })
    | .valueMark =>
      if last?.isNone || last.value.isSome then hold (items ++ [.ofKey [] none [mark]])
      else
        match last.separator with
        | some separator =>
          hold (setLast items { last with separator := some (separator ++ [mark]) })
        | none => hold (setLast items { last with key := none, separator := some [mark] })
    | .space | .comment | .newline | .anchor | .tag =>
      if last?.isNone || last.value.isSome then hold (items ++ [.ofStart [mark]])
      else
        match last.separator with
        | some separator =>
          hold (setLast items { last with separator := some (separator ++ [mark]) })
        | none => hold (setLast items { last with start := last.start ++ [mark] })
    | .pointer | .plain | .singleQuoted | .doubleQuoted | .blockText =>
      let form : Form := .flat mark []
      if last?.isNone || last.value.isSome then hold (items ++ [.ofKey [] (some form) []])
      else if last.separator.isSome then
        push state (.node form :: .node (.flow opening indent items tail) :: rest)
      else hold (setLast items { last with key := some form, separator := some [] })
    | .mapClose | .listClose => push state (.node (.flow opening indent items [mark]) :: rest)
    | _ => (start? state mark (.node (.flow opening indent items tail)) rest).getD (.close state)
  else
    let extended : Frame := .node (.flow opening indent items (tail ++ [mark]))
    match rest with
    | .node (.mapping parentIndent parentItems) :: _ =>
      let keyless := (parentItems.getLast?.getD emptyItem).separator.isNone
      if (mark.kind = .valueMark && parentIndent = indent) || (mark.kind = .newline && keyless) then
        .close state
      else if mark.kind = .valueMark then keyed (rest.headD (.documentEnd [])) (rest.drop 1)
      else lineEnd state mark extended rest
    | .node (.flow ..) :: _ => lineEnd state mark extended rest
    | parent :: above =>
      if mark.kind = .valueMark then keyed parent above else lineEnd state mark extended rest
    | [] => lineEnd state mark extended rest
where
  /-- Makes the collection the first key of a mapping. -/
  keyed (parent : Frame) (above : List Frame) : Move :=
    let (parent, start) := takeKeyStart parent
    let items := if opening.kind = .listOpen then items.map settleListItem else items
    let key : Form := .flow opening indent items (tail.take 1)
    push { state with onKeyLine := true }
      (.node (.mapping indent [.ofKey start (some key) (tail.drop 1 ++ [mark])]) ::
        parent :: above)

def inDocumentEnd (state : State) (mark : Mark) (tail : List Mark) (rest : List Frame) : Move :=
  if mark.kind = .documentMode then .take state
  else
    let state := { state with stack := .documentEnd (tail ++ [mark]) :: rest }
    .take (if mark.kind = .newline then pop state else state)

/-- What a token does to the innermost frame. -/
def move (state : State) (mark : Mark) : Move :=
  match state.stack with
  | [] => stream state mark
  | .document start value tail :: rest => inDocument state mark start value tail rest
  | .documentEnd tail :: rest => inDocumentEnd state mark tail rest
  | .node (.flat own tail) :: rest => inFlat state mark own tail rest
  | .node (.block header _ indent) :: rest => inBlock state mark header indent rest
  | .node (.flow opening indent items tail) :: rest =>
    inFlow state mark opening indent items tail rest
  | .node (.mapping indent items) :: rest => inMapping state mark indent items rest
  | .node (.sequence indent items) :: rest => inSequence state mark indent items rest

/-- Closes every frame. -/
def popAll : Nat → State → State
  | 0, state => state
  | fuel + 1, state => if state.stack.isEmpty then state else popAll fuel (pop state)

/-- Closes frames until one takes the token up. -/
def settleMark : Nat → State → Mark → Option State
  | 0, _, _ => none
  | fuel + 1, state, mark =>
    match move state mark with
    | .take after => some after
    | .close after => settleMark fuel (pop after) mark
    | .reject => none

def atDocumentEnd (state : State) : Bool :=
  match state.stack with
  | .documentEnd _ :: _ => true
  | _ => false

/-- Reads one token; `none` if it has no place. A document end closes everything. -/
def read (state : State) (mark : Mark) : Option State :=
  if mark.kind = .stray then none
  else if mark.kind = .documentEnd && !atDocumentEnd state then
    let closed := popAll (state.stack.length + 1) state
    some { closed with stack := [.documentEnd []] }
  else settleMark (state.stack.length + 2) state mark

end Layout

/-- The parts of a YAML text in order, or `none` if a token has no place. -/
def parts (text : Text) : Option (List Part) := do
  let final ← (marks text).foldlM Layout.read ⟨[], false, []⟩
  return (Layout.popAll (final.stack.length + 1) final).parts.reverse

end Crossref.Yaml

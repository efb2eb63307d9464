import Crossref.Yaml.Fault
import Crossref.Yaml.Layout

/-! What stands in front of a node or between a key and its value: blanks, comments, line breaks,
an anchor, a tag, and the indicator of the entry. -/

set_option autoImplicit false

namespace Crossref.Yaml

namespace Form

/-- The offset of the first token of a node; `none` for an empty collection. -/
def offset? : Form → Option Nat
  | flat mark _ => some mark.offset
  | block header _ _ => header.head?.map (·.offset)
  | flow opening _ _ _ => some opening.offset
  | _ => none

/-- The column up to which the line of a node is indentation. -/
def indentation : Form → Nat
  | flat mark _ => mark.indent
  | block _ _ indent => indent
  | flow _ indent _ _ => indent
  | mapping indent _ => indent
  | sequence indent _ => indent

def isBlockCollection : Form → Bool
  | mapping .. => true
  | sequence .. => true
  | _ => false

def isMapping : Form → Bool
  | mapping .. => true
  | _ => false

def isSequence : Form → Bool
  | sequence .. => true
  | _ => false

def isFlow : Form → Bool
  | flow .. => true
  | _ => false

def isBlockScalar : Form → Bool
  | block .. => true
  | _ => false

/-- Whether a node spans lines, looked for `depth` collections deep. -/
def spansLines : Nat → Form → Bool
  | 0, _ => true
  | _ + 1, flat mark tail => mark.source.contains '\n' || hasKind .newline tail
  | depth + 1, flow _ _ items _ =>
    items.any fun item =>
      hasKind .newline item.start || item.separator.any (hasKind .newline ·) ||
        item.key.any (spansLines depth ·) || item.value.any (spansLines depth ·)
  | _ + 1, _ => true

end Form

/-- What comes behind the properties, as far as it restricts them. -/
structure Successor where
  isFlow : Bool
  isBlockCollection : Bool
  isBlank : Bool

def Successor.ofForm (form : Form) : Successor :=
  let isBlank := match form with
    | .flat mark _ => mark.kind = .plain && mark.source.isEmpty
    | _ => false
  ⟨form.isFlow, form.isBlockCollection, isBlank⟩

def Successor.ofMark (mark : Mark) : Successor :=
  ⟨false, false, mark.kind = .space || mark.kind = .newline || mark.kind = .comma⟩

/-- Where properties stand: the name of the indicator they may hold, whether they are inside of
brackets, the indentation of the collection around them, and whether they start a line. -/
structure Place where
  indicator : TokenKind
  inFlow : Bool
  indent : Nat
  startsLine : Bool

structure Properties where
  indicator : Option Mark
  comma : Option Mark
  anchor : Option Mark
  tag : Option Mark
  hasNewline : Bool
  /-- The last line break behind the anchor or the tag. -/
  newlineBehind : Option Mark

namespace Properties

def none : Properties := ⟨.none, .none, .none, .none, false, .none⟩

def isNode (properties : Properties) : Bool := properties.anchor.isSome || properties.tag.isSome

def offset? (properties : Properties) : Option Nat :=
  match properties.anchor, properties.tag with
  | some anchor, some tag => some (min anchor.offset tag.offset)
  | some anchor, .none => some anchor.offset
  | .none, some tag => some tag.offset
  | .none, .none => .none

/-- The properties read so far, whether the last token starts a line, whether a blank came last,
whether one has to come next, and a tab that may turn out to be indentation. -/
structure Progress where
  found : Properties
  atNewline : Bool
  hasSpace : Bool
  needsSpace : Bool
  tab : Option Mark

def readMark (place : Place) (next : Option Successor) (progress : Progress) (mark : Mark) :
    Except Fault Progress := do
  if progress.needsSpace && mark.kind ≠ .space && mark.kind ≠ .newline && mark.kind ≠ .comma then
    throw .missingBlank
  if progress.tab.isSome && progress.atNewline && mark.kind ≠ .comment && mark.kind ≠ .newline then
    throw .tabIndentation
  let progress := { progress with needsSpace := false, tab := .none }
  let found := progress.found
  let property (found : Properties) : Progress :=
    { progress with found := found, atNewline := false, hasSpace := false, needsSpace := true }
  if mark.kind = place.indicator then
    if found.isNode then throw .propertyOrder
    if found.indicator.isSome then throw .misplacedToken
    return { progress with
      found := { found with indicator := some mark }
      atNewline := place.indicator = .itemMark || place.indicator = .keyMark
      hasSpace := false }
  match mark.kind with
  | .space =>
    let atFlowDocument := place.indicator = .documentStart && next.any (·.isFlow)
    let isTab := !place.inFlow && !atFlowDocument && mark.source.contains '\t'
    return { progress with tab := if isTab then some mark else .none, hasSpace := true }
  | .comment =>
    if !progress.hasSpace then throw .missingBlank
    return { progress with atNewline := false }
  | .newline =>
    let behind := if found.isNode then some mark else found.newlineBehind
    return { progress with
      found := { found with hasNewline := true, newlineBehind := behind }
      atNewline := true, hasSpace := true }
  | .anchor =>
    if found.anchor.isSome then throw .repeatedProperty
    return property { found with anchor := some mark }
  | .tag =>
    if found.tag.isSome then throw .repeatedProperty
    return property { found with tag := some mark }
  | .comma =>
    if !place.inFlow || found.comma.isSome then throw .misplacedToken
    return { progress with
      found := { found with comma := some mark }, atNewline := false, hasSpace := false }
  | _ => throw .misplacedToken

/-- Reads the tokens in front of `next`. -/
def read (place : Place) (next : Option Successor) (marks : List Mark) :
    Except Fault Properties := do
  let start : Progress := ⟨none, place.startsLine, place.startsLine, false, .none⟩
  let progress ← marks.foldlM (readMark place next) start
  if progress.needsSpace && next.any (!·.isBlank) then throw .missingBlank
  match progress.tab with
  | some tab =>
    if (progress.atNewline && tab.indent ≤ place.indent) || next.any (·.isBlockCollection) then
      throw .tabIndentation
  | .none => pure ()
  return progress.found

end Properties

/-- Allows nothing but blanks, line breaks and comments behind a node. -/
def checkTail (needsSpace : Bool) (tail : List Mark) : Except Fault Unit := do
  let rec check (hasSpace : Bool) : List Mark → Except Fault Unit
    | [] => .ok ()
    | mark :: rest =>
      match mark.kind with
      | .space | .newline => check true rest
      | .comment => if needsSpace && !hasSpace then .error .missingBlank else check hasSpace rest
      | _ => .error .misplacedToken
  check false tail

end Crossref.Yaml

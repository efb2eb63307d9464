import Crossref.Text.LowerCase
import Crossref.Token

/-! What a single line or list declares: attribute entries such as `:name: value`, and ids, as a
block anchor `[[id]]`, as an inline anchor `anchor:id[]` or as `#id` in an attribute list. -/

set_option autoImplicit false

namespace Crossref

/-- An attribute entry. An unset entry, marked by `!`, has no value. -/
structure AttributeEntry where
  name : Text
  value : Option Text
deriving DecidableEq

namespace AttributeEntry

/-- Reads what stands behind the colon that ends the name: nothing, or a gap of spaces and tabs
followed by text without line terminators. -/
def rawValue? : Text → Option Text
  | [] => some []
  | c :: rest =>
    let isGap (d : Char) : Bool := d = ' ' || d = '\t'
    let raw := rest.dropWhile isGap
    if isGap c && !raw.any Text.isLineTerminator then some raw else none

/-- Reads `:name: value`, `:name!:` or `:!name:`. The name is lower-cased, the value trimmed. -/
def ofLine? (line : Text) : Option AttributeEntry := do
  let opened ← Text.after? ":" line
  let (leading, named) := match opened with
    | '!' :: rest => (true, rest)
    | _ => (false, opened)
  let first ← named.head?
  guard (Text.isWord first)
  let name := Text.lower (named.takeWhile Text.isNamePart)
  let behind := named.dropWhile Text.isNamePart
  let (trailing, closing) := match behind with
    | '!' :: rest => (true, rest)
    | _ => (false, behind)
  let raw ← Text.after? ":" closing >>= rawValue?
  return ⟨name, if leading || trailing then none else some (Text.trim raw)⟩

/-- Whether a value goes on in the next line. -/
def isContinued (value : Text) : Bool := (" \\" : Text).isSuffixOf value

/-- Extends a value by the lines behind it for as long as it ends in a blank and a backslash. -/
def extend (value : Text) : List Token → Text
  | ending :: next :: rest =>
    if isContinued value && ending.kind = .lineBreak && next.kind = .text then
      extend (Text.trimEnd value.dropLast ++ " " ++ Text.trim next.text) rest
    else value
  | _ => value

/-- The entry in `line`, with the value completed from the tokens behind the line. -/
def read? (line : Text) (following : List Token) : Option AttributeEntry :=
  (ofLine? line).map fun entry => { entry with value := entry.value.map (extend · following) }

end AttributeEntry

namespace Anchor

def isIdStart (c : Char) : Bool := c.isAlpha || c = '_' || c = ':'

/-- Whether an id of a shorthand may contain the character. -/
def isShorthandPart (c : Char) : Bool := Text.isNamePart c || c = ':'

def isIdPart (c : Char) : Bool := isShorthandPart c || c = '.'

/-- The id at the start of a text, as long as `isPart` allows, and what follows it. -/
def takeId? (isPart : Char → Bool) : Text → Option (Text × Text)
  | [] => none
  | c :: rest =>
    if isIdStart c then some (c :: rest.takeWhile isPart, rest.dropWhile isPart) else none

/-- The id of a line that is `[[id]]` or `[[id,label]]` as a whole. -/
def ofLine? (line : Text) : Option Text := do
  let inner ← Text.after? "[[" line
  let (id, behind) ← takeId? isIdPart inner
  let closing : Text := match behind with
    | ',' :: label => label.dropWhile (· ≠ ']')
    | _ => behind
  if closing = "]]" then some id else none

/-- The id of an inline anchor at the start of a text, and what follows its closing bracket. -/
def inlineAt? (text : Text) : Option (Text × Text) := do
  let named ← Text.after? "anchor:" text
  let (id, behind) ← takeId? isIdPart named
  let inner ← Text.after? "[" behind
  match inner.dropWhile (· ≠ ']') with
  | [] => none
  | _ :: rest => some (id, rest)

theorem inlineAt?_shorter {text id rest : Text} (found : inlineAt? text = some (id, rest)) :
    rest.length < text.length := by
  simp only [inlineAt?, Option.bind_eq_bind, Option.bind_eq_some_iff, Prod.exists] at found
  obtain ⟨named, led, taken, behind, identified, inner, opened, closed⟩ := found
  have ledLength : named.length < text.length := by
    unfold Text.after? at led
    split at led
    · rename_i leads
      have := (List.isPrefixOf_iff_prefix.mp leads).length_le
      cases led
      simp at this ⊢
      omega
    · cases led
  have takenLength : behind.length < named.length := by
    cases named with
    | nil => cases identified
    | cons c tail =>
      have := (List.dropWhile_suffix (l := tail) isIdPart).length_le
      by_cases starts : isIdStart c <;> simp [takeId?, starts] at identified
      obtain ⟨_, rfl⟩ := identified
      simpa using Nat.lt_succ_of_le this
  have openedLength : inner.length ≤ behind.length := by
    unfold Text.after? at opened
    split at opened
    · cases opened; simp
    · cases opened
  have innerLength := (List.dropWhile_suffix (l := inner) (· ≠ ']')).length_le
  cases dropped : inner.dropWhile (· ≠ ']') with
  | nil => rw [dropped] at closed; cases closed
  | cons c tail =>
    rw [dropped] at closed innerLength
    cases closed
    simp only [List.length_cons] at innerLength
    omega

/-- The ids of the inline anchors of a text, from left to right and without overlap. -/
def inline (text : Text) : List Text :=
  match text with
  | [] => []
  | c :: rest =>
    match _found : inlineAt? (c :: rest) with
    | some (id, behind) => id :: inline behind
    | none => inline rest
termination_by text.length
decreasing_by
  · exact inlineAt?_shorter _found
  · simp

/-- The id behind `#` in the first name of an attribute list, such as `source#id.role`. -/
def shorthand? (name : Text) : Option Text := do
  let marked ← Text.after? "#" (name.dropWhile Text.isNamePart)
  let (id, _) ← takeId? isShorthandPart marked
  return id

end Anchor

end Crossref

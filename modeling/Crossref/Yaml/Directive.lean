import Crossref.Yaml.Fault
import Crossref.Yaml.Scalar

/-! Directives and tags. A directive may name the beginnings that tag handles stand for, and the version of the
language. Which tags are known then is as in release 2.9.1 of the package yaml. -/

set_option autoImplicit false

namespace Crossref.Yaml

structure Directives where
  /-- The tag handles of a document and what they stand for. -/
  handles : List (Text × Text)
  /-- Whether tags can change what a node stands for. -/
  knowsTags : Bool

namespace Directives

/-- Without directives only the handle of the standard tags is known. -/
def default : Directives := ⟨[("!!".toList, "tag:yaml.org,2002:".toList)], true⟩

def words (line : Text) : List Text :=
  (Text.pieces Scalar.isBlank (Text.trim line)).filter fun word => !word.isEmpty

/-- Whether a version is written as two numbers. -/
def isVersion (version : Text) : Bool :=
  match Text.pieces (· = '.') version with
  | [major, minor] =>
    !major.isEmpty && !minor.isEmpty && major.all Char.isDigit && minor.all Char.isDigit
  | _ => false

/-- Takes a version up. In version 1.1 no tag has a meaning. A version other than 1.1 and 1.2 is passed over. -/
def ofVersion (directives : Directives) (version : Text) : Directives :=
  if version = "1.1" then { directives with knowsTags := false }
  else if version = "1.2" then { directives with knowsTags := true }
  else directives

/-- Takes a directive up. A directive of an unknown name is passed over. -/
def add (directives : Directives) (line : Text) : Except Fault Directives :=
  match words line with
  | name :: arguments =>
    if name = "%TAG" then
      match arguments with
      | [handle, meaning] => .ok { directives with handles := (handle, meaning) :: directives.handles }
      | _ => .error .directive
    else if name = "%YAML" then
      match arguments with
      | [version] => if isVersion version then .ok (directives.ofVersion version) else .error .directive
      | _ => .error .directive
    else .ok directives
  | [] => .ok directives

/-- The bytes of a text in which a percent sign and two digits stand for one byte. -/
def percentBytes? : Text → Option (List UInt8)
  | [] => some []
  | '%' :: high :: low :: rest => do
    let code ← Text.hexNumber? [high, low]
    return UInt8.ofNat code :: (← percentBytes? rest)
  | '%' :: _ => none
  | c :: rest => (percentBytes? rest).map ((String.singleton c).toUTF8.toList ++ ·)

def percentDecode? (text : Text) : Option Text := do
  let bytes ← percentBytes? text
  let decoded ← String.fromUTF8? ⟨bytes.toArray⟩
  return decoded.toList

/-- The full name of a tag. A tag of one exclamation mark and a name is its own name. -/
def tagName (directives : Directives) (source : Text) : Except Fault Text :=
  match source with
  | ['!'] => .ok source
  | '!' :: '<' :: verbatim =>
    let name := verbatim.dropLast
    if name = "!" || name = "!!" || verbatim.getLast? ≠ some '>' then .error .tag else .ok name
  | _ =>
    let suffix := (source.reverse.takeWhile (· ≠ '!')).reverse
    let handle := source.take (source.length - suffix.length)
    if suffix.isEmpty then .error .tag
    else
      match List.lookup handle directives.handles with
      | some meaning =>
        match percentDecode? suffix with
        | some decoded => .ok (meaning ++ decoded)
        | none => .error .tag
      | none => if handle = "!" then .ok source else .error .tag

end Directives

/-- The tags that change what a node stands for. -/
inductive SpecialTag where
  | binary
  | timestamp
  | merge
  | set
  | pairs
  | orderedMap
deriving DecidableEq

def SpecialTag.ofName? (name : Text) : Option SpecialTag :=
  let table : List (Text × SpecialTag) :=
    [("binary".toList, .binary), ("timestamp".toList, .timestamp), ("merge".toList, .merge),
     ("set".toList, .set), ("pairs".toList, .pairs), ("omap".toList, .orderedMap)]
  (Text.after? "tag:yaml.org,2002:" name).bind (List.lookup · table)

/-- The special tag that is written as `source`, if it is one. -/
def Directives.specialTag? (directives : Directives) (source : Text) : Except Fault (Option SpecialTag) := do
  let name ← directives.tagName source
  return if directives.knowsTags then SpecialTag.ofName? name else none

/-- Whether a text is a date, optionally followed by a time of day and a time zone. -/
def isTimestamp (text : Text) : Bool :=
  let digits (least most : Nat) (text : Text) : Option Text :=
    let run := text.takeWhile Char.isDigit
    if least ≤ run.length && run.length ≤ most then some (text.drop run.length) else none
  let isBlank (c : Char) : Bool := c = ' ' || c = '\t'
  let zone (text : Text) : Bool :=
    match text.dropWhile isBlank with
    | [] => text.isEmpty
    | ['Z'] => true
    | sign :: rest =>
      let hours? := match rest with
        | [_] => digits 1 1 rest
        | first :: second :: more =>
          if second.isDigit then
            if first = '0' || first = '1' || first = '2' then some more else none
          else digits 1 1 rest
        | [] => none
      (sign = '+' || sign = '-') && rest.head?.any Char.isDigit &&
        match hours? with
        | some [] => true
        | some (':' :: minutes) => minutes.length = 2 && minutes.all Char.isDigit
        | _ => false
  let fraction (text : Text) : Bool :=
    match text with
    | '.' :: rest =>
      let run := rest.takeWhile Char.isDigit
      !run.isEmpty && zone (rest.drop run.length)
    | _ => zone text
  let time (text : Text) : Bool :=
    (do
      let minutes ← digits 1 2 text >>= Text.after? ":"
      let seconds ← digits 1 2 minutes >>= Text.after? ":"
      digits 1 2 seconds : Option Text).any fraction
  let date : Option Text := do
    let month ← digits 4 4 text >>= Text.after? "-"
    let day ← digits 1 2 month >>= Text.after? "-"
    digits 1 2 day
  match date with
  | none => false
  | some [] => true
  | some (c :: rest) =>
    if c = 't' || c = 'T' then time rest
    else if isBlank c then time (rest.dropWhile isBlank)
    else false

end Crossref.Yaml

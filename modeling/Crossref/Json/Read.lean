import Crossref.Json.Token
import Crossref.Members

/-! Reading a JSON text with comments and trailing commas. Reading goes on behind a problem, so
that all problems of a text are found. -/

set_option autoImplicit false

namespace Crossref.Json

/-- The tokens that are left, the current one first, and the problems found so far. -/
structure Reader where
  tokens : List Token
  problems : List Problem

namespace Reader

def current (reader : Reader) : Token := reader.tokens.headD ⟨.endOfText, 0, []⟩

def kind (reader : Reader) : TokenKind := reader.current.kind

def atEnd (reader : Reader) : Bool :=
  match reader.kind with
  | .endOfText => true
  | _ => false

def atComma (reader : Reader) : Bool :=
  match reader.kind with
  | .comma => true
  | _ => false

def atCloseBrace (reader : Reader) : Bool :=
  match reader.kind with
  | .closeBrace => true
  | _ => false

def atCloseBracket (reader : Reader) : Bool :=
  match reader.kind with
  | .closeBracket => true
  | _ => false

/-- Goes on to the next token. The end of the text stays. -/
def advance (reader : Reader) : Reader :=
  match reader.tokens with
  | _ :: next :: rest => ⟨next :: rest, reader.problems ++ next.problems⟩
  | _ => reader

def report (reader : Reader) (fault : Fault) : Reader :=
  { reader with problems := reader.problems ++ [⟨fault, reader.current.offset⟩] }

/-- Goes on to the first token that is accepted, or to the end of the text. -/
def skipTo (accepts : Reader → Bool) : Nat → Reader → Reader
  | 0, reader => reader
  | fuel + 1, reader =>
    if accepts reader || reader.atEnd then reader else skipTo accepts fuel reader.advance

def skip (accepts : Reader → Bool) (reader : Reader) : Reader :=
  skipTo accepts reader.tokens.length reader

def missingInObject (reader : Reader) (fault : Fault) : Reader :=
  (reader.report fault).skip fun at' => at'.atCloseBrace || at'.atComma

def missingInArray (reader : Reader) : Reader :=
  (reader.report .valueExpected).skip fun at' => at'.atCloseBracket || at'.atComma

/-- Leaves a collection at its closing token, which is looked for if it is not the current one. -/
def close (reader : Reader) (isClosing : Reader → Bool) (fault : Fault) : Reader :=
  if isClosing reader then reader.advance
  else
    let found := (reader.report fault).skip isClosing
    if isClosing found then found.advance else found

/-- Sets a member. A collection under the name `__proto__` lends its members to the object, behind
the object's own; any other value under that name is lost. -/
def setMember (members inherited : List (Text × Json)) (name : Text) (value : Json) :
    List (Text × Json) × List (Text × Json) :=
  if name = "__proto__" then
    match value with
    | .object lent => (members, lent)
    | .array items => (members, items.zipIdx.map fun (item, index) => (Text.ofNat index, item))
    | .null => (members, [])
    | _ => (members, inherited)
  else (Members.set name value members, inherited)

def object (members inherited : List (Text × Json)) : Json :=
  .object (members ++ inherited.filter fun lent => (Members.get? lent.1 members).isNone)

mutual

/-- Reads a value, if one starts here. -/
def value : Nat → Reader → Option Json × Reader
  | 0, reader => (none, reader)
  | fuel + 1, reader =>
    match reader.kind with
    | .openBracket => array fuel [] false reader.advance
    | .openBrace => members fuel [] [] false reader.advance
    | .string text => (some (.string text), reader.advance)
    | .literal value => (some value, reader.advance)
    | _ => (none, reader)

/-- Reads the rest of an array, where `needsComma` holds behind an item. -/
def array : Nat → List Json → Bool → Reader → Option Json × Reader
  | 0, _, _, reader => (none, reader)
  | fuel + 1, items, needsComma, reader =>
    let finish (reader : Reader) : Option Json × Reader :=
      (some (.array items), reader.close (·.atCloseBracket) .closeBracketExpected)
    if reader.atCloseBracket || reader.atEnd then finish reader
    else
      let reader :=
        if reader.atComma then (if needsComma then reader else reader.report .valueExpected).advance
        else if needsComma then reader.report .commaExpected else reader
      if reader.atCloseBracket then finish reader
      else
        match value fuel reader with
        | (some item, after) => array fuel (items ++ [item]) true after
        | (none, after) => array fuel items true after.missingInArray

/-- Reads the rest of an object, where `needsComma` holds behind a property. -/
def members : Nat → List (Text × Json) → List (Text × Json) → Bool → Reader → Option Json × Reader
  | 0, _, _, _, reader => (none, reader)
  | fuel + 1, found, inherited, needsComma, reader =>
    let finish (reader : Reader) : Option Json × Reader :=
      (some (object found inherited), reader.close (·.atCloseBrace) .closeBraceExpected)
    if reader.atCloseBrace || reader.atEnd then finish reader
    else
      let reader :=
        if reader.atComma then (if needsComma then reader else reader.report .valueExpected).advance
        else if needsComma then reader.report .commaExpected else reader
      if reader.atCloseBrace then finish reader
      else
        match reader.kind with
        | .string name =>
          let named := reader.advance
          match named.kind with
          | .colon =>
            match value fuel named.advance with
            | (some item, after) =>
              let (found, inherited) := setMember found inherited name item
              members fuel found inherited true after
            | (none, after) =>
              members fuel found inherited true (after.missingInObject .valueExpected)
          | _ => members fuel found inherited true (named.missingInObject .colonExpected)
        | _ =>
          let skipped := reader.missingInObject .propertyNameExpected
          members fuel found inherited true (skipped.missingInObject .valueExpected)

end

end Reader

/-- Reads the one value of a text, or finds everything that is wrong with the text. -/
def read (text : Text) : Except (List Problem) Json :=
  let tokens := tokens text
  let reader : Reader := ⟨tokens, (tokens.head?.map (·.problems)).getD []⟩
  let (found, after) := reader.value (3 * tokens.length + 3)
  let final :=
    match found with
    | none => after.report .valueExpected
    | some _ => if after.atEnd then after else after.report .endOfFileExpected
  match found, final.problems with
  | some value, [] => .ok value
  | _, problems => .error problems

end Crossref.Json

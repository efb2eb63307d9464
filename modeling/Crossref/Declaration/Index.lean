import Crossref.Catalogue
import Crossref.Declaration
import Crossref.Line.Table
import Crossref.Token.Lexer

/-! The index of a set of documents: every attribute entry by name and every id. -/

set_option autoImplicit false

namespace Crossref

/-- A place in a document: a file and a line, counting from one. -/
structure Location where
  file : Text
  line : Nat
deriving DecidableEq

/-- An attribute entry found in a document. -/
structure IndexedAttribute extends AttributeEntry, Location
deriving DecidableEq

/-- An id found in a document. -/
structure IndexedId extends Location where
  id : Text
deriving DecidableEq

/-- A document: its path and its content. -/
structure Source where
  path : Text
  text : Text

/-- Something that a token declares. -/
inductive Declared where
  | attribute (entry : IndexedAttribute)
  | anchor (found : IndexedId)
deriving DecidableEq

namespace Declared

/-- Whether a token behind `previous` starts a line. -/
def atLineStart (previous : Option Token) : Bool :=
  match previous with
  | none => true
  | some token => token.text.getLast? = some '\n'

/-- What one token declares. Text that fills a line is an entry or a block anchor before it is
searched for inline anchors, and only the first name of a list can carry an id. -/
def ofToken (location : Location) (previous : Option Token) (token : Token)
    (following : List Token) : List Declared :=
  match token.kind with
  | .text =>
    let inlineAnchors := (Anchor.inline token.text).map fun id => .anchor ⟨location, id⟩
    if atLineStart previous then
      match AttributeEntry.read? token.text following with
      | some entry => [.attribute ⟨entry, location⟩]
      | none =>
        match Anchor.ofLine? token.text with
        | some id => [.anchor ⟨location, id⟩]
        | none => inlineAnchors
    else inlineAnchors
  | .attributeName =>
    if previous.any fun token => token.kind = .attributeListStart then
      (Anchor.shorthand? (Text.trim token.text)).toList.map fun id => .anchor ⟨location, id⟩
    else []
  | _ => []

/-- What the remaining tokens of a file declare, in order. -/
def ofTokens (file : Text) (lines : LineTable) (previous : Option Token) :
    List Token → List Declared
  | [] => []
  | token :: rest =>
    ofToken ⟨file, lines.lineOf token.start⟩ previous token rest ++
      ofTokens file lines (some token) rest

/-- What a document declares, in order. -/
def ofSource (source : Source) : List Declared :=
  ofTokens source.path (LineTable.ofText source.text) none (Token.ofText source.text)

end Declared

/-- The declarations of a set of documents. -/
structure Index where
  attributes : Catalogue IndexedAttribute
  ids : Catalogue IndexedId

namespace Index

def empty : Index := ⟨.empty, .empty⟩

/-- Files a declaration under its own name or id. -/
def add (index : Index) : Declared → Index
  | .attribute entry => { index with attributes := index.attributes.add entry.name entry }
  | .anchor found => { index with ids := index.ids.add found.id found }

/-- The index of documents, in the order given. -/
def ofSources (sources : List Source) : Index :=
  (sources.flatMap Declared.ofSource).foldl add empty

/-- Where an id is declared. The empty id is declared nowhere. -/
def findIds (index : Index) (id : Text) : List IndexedId :=
  if id.isEmpty then [] else index.ids.get id

end Index

end Crossref

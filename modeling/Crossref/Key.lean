import Crossref.Family

/-! Symbolic keys such as `2.0@comp:mod:image$pic.png`. A key is read from left to right: an
optional version, an optional address of a module, an optional family, and a remainder. Writing
the parts again gives the key back. -/

set_option autoImplicit false

namespace Crossref

/-- Whether a version, a component name or a module name may contain the character. -/
def isKeyChar (c : Char) : Bool := c.isAlphanum || c = '.' || c = '_' || c = '-'

/-- The run of key characters before `mark`, and what follows the mark. -/
def runBefore? (mark : Char) (text : Text) : Option (Text × Text) :=
  match text.dropWhile isKeyChar with
  | [] => none
  | c :: rest => if c = mark then some (text.takeWhile isKeyChar, rest) else none

/-- The parts of a symbolic key. An empty part is present: `@x` has the empty version, and `x` has
none. -/
structure Key where
  version : Option Text
  component : Option Text
  moduleName : Option Text
  family : Option Family
  remainder : Text
deriving DecidableEq

namespace Key

/-- Takes `version@` off the front. -/
def readVersion (text : Text) : Option Text × Text :=
  match runBefore? '@' text with
  | some (version, rest) => (some version, rest)
  | none => (none, text)

/-- Takes `component:module:` or else `module:` off the front. -/
def readAddress (text : Text) : (Option Text × Option Text) × Text :=
  match runBefore? ':' text with
  | none => ((none, none), text)
  | some (first, rest) =>
    match runBefore? ':' rest with
    | some (second, behind) => ((some first, some second), behind)
    | none => ((none, some first), rest)

/-- Takes `family$` off the front. -/
def readFamily (text : Text) : Option Family × Text :=
  match Family.all.find? fun family => (family.name ++ ['$']).isPrefixOf text with
  | some family => (some family, text.drop (family.name.length + 1))
  | none => (none, text)

def ofText (text : Text) : Key :=
  let (version, addressed) := readVersion text
  let ((component, moduleName), familiar) := readAddress addressed
  let (family, remainder) := readFamily familiar
  ⟨version, component, moduleName, family, remainder⟩

/-- A part followed by its mark, or nothing if the part is absent. -/
def marked (part : Option Text) (mark : Char) : Text :=
  match part with
  | some text => text ++ [mark]
  | none => []

/-- Writes the parts in the order in which they are read. -/
def toText (key : Key) : Text :=
  marked key.version '@' ++ marked key.component ':' ++ marked key.moduleName ':' ++
    marked (key.family.map Family.name) '$' ++ key.remainder

end Key

def isUrl (target : Text) : Bool :=
  let schemes : List Text := ["https", "http", "file", "ftp", "irc"]
  schemes.any fun scheme => (scheme ++ "://").isPrefixOf target

end Crossref

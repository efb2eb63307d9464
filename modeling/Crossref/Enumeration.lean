import Crossref.Members

/-! Enumerations: a fixed list of keys, each with a value. -/

set_option autoImplicit false

namespace Crossref

/-- Keys in the order in which they are listed, with their values. No key occurs twice, but a value
may. -/
structure Enumeration (α : Type) where
  entries : List (Text × α)
deriving DecidableEq

namespace Enumeration

variable {α : Type}

/-- The enumeration of some members. Keys that are array indices come first. -/
def ofMembers (members : List (Text × α)) : Enumeration α :=
  ⟨Members.listed (Members.ofList members)⟩

def keys (enumeration : Enumeration α) : List Text := enumeration.entries.map (·.1)

def values (enumeration : Enumeration α) : List α := enumeration.entries.map (·.2)

def value? (enumeration : Enumeration α) (key : Text) : Option α :=
  Members.get? key enumeration.entries

def isKey (enumeration : Enumeration α) (key : Text) : Bool := (enumeration.value? key).isSome

/-- The key of a value; of several keys it is the last. -/
def keyOf? [BEq α] (enumeration : Enumeration α) (value : α) : Option Text :=
  (enumeration.entries.reverse.find? fun entry => entry.2 == value).map (·.1)

end Enumeration

end Crossref

import Crossref.Text

/-! Ordered members: named values in which a name keeps the place of its first value. When members
are listed, names that are array indices come first, in ascending order. -/

set_option autoImplicit false

namespace Crossref.Members

variable {α : Type}

def set (name : Text) (value : α) : List (Text × α) → List (Text × α)
  | [] => [(name, value)]
  | (present, old) :: rest =>
    if present = name then (name, value) :: rest else (present, old) :: set name value rest

/-- Sets values one after the other. -/
def ofList (members : List (Text × α)) : List (Text × α) :=
  members.foldl (fun found member => set member.1 member.2 found) []

def get? (name : Text) (members : List (Text × α)) : Option α := List.lookup name members

/-- The number that a decimal numeral without leading zeros stands for. -/
def numeral? (text : Text) : Option Nat :=
  if text.isEmpty || !text.all Char.isDigit || (text.head? = some '0' && 1 < text.length) then none
  else some (text.foldl (fun number c => number * 10 + (c.toNat - '0'.toNat)) 0)

/-- The greatest array index. -/
def maxIndex : Nat := 4294967294

def index? (name : Text) : Option Nat := (numeral? name).filter (· ≤ maxIndex)

/-- The members in the order in which they are listed. -/
def listed (members : List (Text × α)) : List (Text × α) :=
  let indexed := members.filterMap fun member => (index? member.1).map fun index => (index, member)
  (indexed.mergeSort fun left right => left.1 ≤ right.1).map (·.2) ++
    members.filter fun member => (index? member.1).isNone

end Crossref.Members

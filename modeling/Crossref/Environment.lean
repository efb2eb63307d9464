import Crossref.Members

/-! The environment of a run: its variables and their values. -/

set_option autoImplicit false

namespace Crossref

structure Environment where
  settings : List (Text × Text)
deriving DecidableEq

namespace Environment

def empty : Environment := ⟨[]⟩

def get? (environment : Environment) (name : Text) : Option Text :=
  Members.get? name environment.settings

def isSet (environment : Environment) (name : Text) : Bool := (environment.get? name).isSome

def set (environment : Environment) (name value : Text) : Environment :=
  ⟨Members.set name value environment.settings⟩

/-- Sets a variable, but leaves one alone that has a value already unless `replace` holds. An empty
value is a value. -/
def offer (replace : Bool) (environment : Environment) (name value : Text) : Environment :=
  if environment.isSet name && !replace then environment else environment.set name value

/-- Takes the assignments of a file over. The last one of a name counts. -/
def load (replace : Bool) (environment : Environment) (assignments : List (Text × Text)) :
    Environment :=
  (Members.ofList assignments).foldl
    (fun environment assignment => environment.offer replace assignment.1 assignment.2) environment

end Environment

end Crossref

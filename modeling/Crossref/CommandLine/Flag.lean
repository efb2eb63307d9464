import Crossref.Text

/-! The options that can be given on a command line. -/

set_option autoImplicit false

namespace Crossref

inductive Flag where
  | root
  | config
  | logFile
  | family
  | watch
  | version
deriving DecidableEq

namespace Flag

/-- The spelling with one hyphen. -/
def short? : Flag → Option Text
  | root => some "-r"
  | config => some "-c"
  | logFile => none
  | family => some "-f"
  | watch => some "-w"
  | version => some "-v"

/-- The spelling with two hyphens. -/
def long : Flag → Text
  | root => "--root"
  | config => "--config"
  | logFile => "--log-file"
  | family => "--family"
  | watch => "--watch"
  | version => "--version"

/-- What the value of an option stands for. Some options have no value. -/
def valueName? : Flag → Option Text
  | root => some "dir"
  | config => some "file"
  | logFile => some "file"
  | family => some "family"
  | watch => none
  | version => none

def takesValue (flag : Flag) : Bool := flag.valueName?.isSome

/-- All spellings of an option, as they are shown to a user. -/
def usage (flag : Flag) : Text :=
  Text.join ", " (flag.short?.toList ++ [flag.long]) ++
    match flag.valueName? with
    | some name => " <" ++ name ++ ">"
    | none => []

def isSpelled (flag : Flag) (text : Text) : Bool := flag.short? = some text || flag.long = text

end Flag

end Crossref

import Crossref.Config.File

/-! What can end an action before it is done. -/

set_option autoImplicit false

namespace Crossref

/-- Why a line cannot be added to a log file. -/
structure LogError where
  path : Text
  cause : Disk.AppendError
deriving DecidableEq

def LogError.message (error : LogError) : Text :=
  let cause : Text :=
    match error.cause with
    | .noParent => "ENOENT: no such file or directory"
    | .isDirectory => "EISDIR: illegal operation on a directory"
  cause ++ ", open '" ++ error.path ++ "'"

inductive Failure where
  | config (error : ConfigError)
  | refreshDuringRead
  | log (error : LogError)
  | unreadable (path : Text)
  | noExpansion (text : Text)
  | raised (message : Text)
deriving DecidableEq

namespace Failure

def name : Failure → Text
  | config error => error.name
  | _ => "Error"

def message : Failure → Text
  | config error => error.message
  | refreshDuringRead => "Cannot refresh the project index during a read action"
  | log error => error.message
  | unreadable path => "Could not read " ++ path
  | noExpansion text =>
    "Could not expand \"" ++ text ++ "\": an attribute has conflicting values or refers to itself"
  | raised message => message

end Failure

end Crossref

import Crossref.CommandLine.Usage

/-! Dividing arguments into options with their values, operands, and what is not known. -/

set_option autoImplicit false

namespace Crossref

/-- Arguments that are divided. From the first option that is not known, all but the options that
are known are left for a command. -/
structure Scan where
  settings : List (Flag × Text)
  operands : List Text
  unknown : List Text
deriving DecidableEq

namespace Scan

/-- Whether an argument may be an option. A lone hyphen is none. -/
def isOption (argument : Text) : Bool := argument.head? = some '-' && 1 < argument.length

/-- The option that begins a cluster such as `-wr`, and the letters behind it. -/
def cluster? (flags : List Flag) (argument : Text) : Option (Flag × Text) :=
  match argument with
  | '-' :: letter :: next :: rest =>
    (flags.find? fun flag => letter ≠ '-' && flag.isSpelled ['-', letter]).map (·, next :: rest)
  | _ => none

theorem cluster?_length {flags : List Flag} {argument letters : Text} {flag : Flag}
    (found : cluster? flags argument = some (flag, letters)) :
    argument.length = letters.length + 2 := by
  unfold cluster? at found
  split at found
  · obtain ⟨_, _, same⟩ := Option.map_eq_some_iff.mp found
    cases same
    rfl
  · cases found

/-- The option and the value of an argument such as `--root=dir`. -/
def assigned? (flags : List Flag) (argument : Text) : Option (Flag × Text) :=
  match argument.takeWhile (· ≠ '='), argument.dropWhile (· ≠ '=') with
  | '-' :: '-' :: letter :: name, _ :: value =>
    (flags.find? fun flag => flag.takesValue && flag.isSpelled ('-' :: '-' :: letter :: name)).map
      (·, value)
  | _, _ => none

def set (flag : Flag) (value : Text) (scan : Scan) : Scan :=
  { scan with settings := (flag, value) :: scan.settings }

/-- Puts an argument that is no known option in front. -/
def place (behindUnknown : Bool) (argument : Text) (scan : Scan) : Scan :=
  if behindUnknown then { scan with unknown := argument :: scan.unknown }
  else { scan with operands := argument :: scan.operands }

/-- Everything behind two hyphens is an operand. For a command they are left in place. -/
def literal (behindUnknown : Bool) (arguments : List Text) : Scan :=
  if behindUnknown then ⟨[], [], "--" :: arguments⟩ else ⟨[], arguments, []⟩

/-- The number of letters in arguments, and one more for each argument. -/
def size : List Text → Nat
  | [] => 0
  | argument :: rest => argument.length + 1 + size rest

/-- Divides arguments, where `behindUnknown` holds if there was an option that is not known. -/
def ofArguments (flags : List Flag) (behindUnknown : Bool) :
    List Text → Except UsageError Scan
  | [] => .ok ⟨[], [], []⟩
  | argument :: rest => do
    if argument = "--" then return literal behindUnknown rest
    else if !isOption argument then
      return (← ofArguments flags behindUnknown rest).place behindUnknown argument
    else
      match flags.find? fun flag => flag.isSpelled argument with
      | some flag =>
        if flag.takesValue then
          match rest with
          | [] => throw (.missingValue flag)
          | value :: further => return (← ofArguments flags behindUnknown further).set flag value
        else return (← ofArguments flags behindUnknown rest).set flag []
      | none =>
        match _found : cluster? flags argument with
        | some (flag, letters) =>
          if flag.takesValue then
            return (← ofArguments flags behindUnknown rest).set flag letters
          else
            return (← ofArguments flags behindUnknown (('-' :: letters) :: rest)).set flag []
        | none =>
          match assigned? flags argument with
          | some (flag, value) => return (← ofArguments flags behindUnknown rest).set flag value
          | none => return (← ofArguments flags true rest).place true argument
termination_by arguments => size arguments
decreasing_by
  · simp only [size]; omega
  · simp only [size]; omega
  · simp only [size]; omega
  · simp only [size]; omega
  · have := cluster?_length _found
    simp only [size, List.length_cons]
    omega
  · simp only [size]; omega
  · simp only [size]; omega

def value? (scan : Scan) (flag : Flag) : Option Text :=
  List.lookup flag scan.settings.reverse

end Scan

end Crossref

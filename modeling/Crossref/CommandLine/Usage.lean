import Crossref.CommandLine.Flag
import Crossref.Text.Similarity

/-! Errors in the use of the command line, with suggestions for words that are misspelled. They are worded as in
release 11.1.0 of the package commander. -/

set_option autoImplicit false

namespace Crossref

inductive UsageError where
  | missingArgument (name : Text)
  | missingValue (flag : Flag)
  /-- An option that is not known, and the words that it may be a misspelling of. -/
  | unknownOption (option : Text) (known : List Text)
  /-- A command that is not known, and the words that it may be a misspelling of. -/
  | unknownCommand (command : Text) (known : List Text)
deriving DecidableEq

namespace UsageError

/-- The line that suggests other words. -/
def suggestion (words : List Text) : Text :=
  match words with
  | [] => []
  | [word] => "\n(Did you mean " ++ word ++ "?)"
  | words => "\n(Did you mean one of " ++ Text.join ", " words ++ "?)"

/-- The options that are similar to an option with two hyphens. The hyphens do not count. -/
def similarOptions (option : Text) (known : List Text) : List Text :=
  match option with
  | '-' :: '-' :: word => (Text.mostSimilar word (known.map (·.drop 2))).map fun name => "--" ++ name
  | _ => []

def message : UsageError → Text
  | missingArgument name => "error: missing required argument '" ++ name ++ "'"
  | missingValue flag => "error: option '" ++ flag.usage ++ "' argument missing"
  | unknownOption option known =>
    "error: unknown option '" ++ option ++ "'" ++ suggestion (similarOptions option known)
  | unknownCommand command known =>
    "error: unknown command '" ++ command ++ "'" ++ suggestion (Text.mostSimilar command known)

end UsageError

end Crossref

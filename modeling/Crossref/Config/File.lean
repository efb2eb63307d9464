import Crossref.Config.Rules
import Crossref.Disk

/-! Finding and loading the configuration file of a project. -/

set_option autoImplicit false

namespace Crossref

inductive ConfigError where
  | search (directory : Text)
  | unreadable (path : Text)
  | syntaxError (path : Text) (problems : List Json.Problem)
  | invalid (violations : List Violation)
deriving DecidableEq

namespace ConfigError

/-- Whether a file was read but says what it must not say. -/
def isValidation : ConfigError → Bool
  | invalid _ => true
  | _ => false

def name (error : ConfigError) : Text :=
  if error.isValidation then "ConfigValidationError" else "ConfigLoadError"

def problemLine (problem : Json.Problem) : Text :=
  problem.fault.name ++ " at offset " ++ Text.ofNat problem.offset

def message : ConfigError → Text
  | search directory => "Failed to search directory: " ++ directory
  | unreadable path => "Unexpected error loading config: " ++ path
  | syntaxError path problems =>
    "Failed to parse config file: " ++ path ++ "\n" ++ Text.join "\n" (problems.map problemLine)
  | invalid violations =>
    "Config validation failed:\n" ++ Text.join "\n" (violations.map Violation.message)

end ConfigError

/-- A configuration, the file it was loaded from, and the directory that it makes a project. -/
structure LoadedConfig where
  config : Config
  file : Text
  projectDir : Text
deriving DecidableEq

namespace LoadedConfig

/-- The names of configuration files; the first one present counts. -/
def fileNames : List Text := ["adocxref.jsonc", "adocxref.json"]

/-- The configuration file in a directory, if there is one. -/
def find? (disk : Disk) (directory : Text) : Except ConfigError (Option Text) :=
  match disk.list? directory with
  | none => .error (.search directory)
  | some entries =>
    let present := fileNames.find? fun name => (entries.map (·.1)).contains name
    .ok (present.map fun name => Path.join [directory, name])

/-- Loads a configuration file. Its directory is the project's. -/
def load (disk : Disk) (path : Text) : Except ConfigError LoadedConfig :=
  match disk.readText? path with
  | none => .error (.unreadable path)
  | some text =>
    match Json.read text with
    | .error problems => .error (.syntaxError path problems)
    | .ok value =>
      match Config.ofJson value with
      | .error violations => .error (.invalid violations)
      | .ok config =>
        let directory := Path.directory (Path.resolve disk.cwd path)
        .ok ⟨config, disk.canonical path, disk.canonical directory⟩

/-- Loads the given configuration file, or else the one in the root directory or the working
directory, if there is one. An empty path counts as not given. -/
def resolve (disk : Disk) (configPath root : Option Text) :
    Except ConfigError (Option LoadedConfig) := do
  match configPath.filter fun path => !path.isEmpty with
  | some path => some <$> load disk (Path.resolve disk.cwd path)
  | none =>
    match ← find? disk (Path.resolve disk.cwd (root.getD [])) with
    | none => return none
    | some path => some <$> load disk path

end LoadedConfig

end Crossref

import Crossref.Config
import Crossref.Json.Read

/-! What a configuration file may say, and the configuration that it describes. Violations are worded as in release
8.20.0 of the package ajv. -/

set_option autoImplicit false

namespace Crossref

/-- What a value in a configuration file has to be. -/
inductive Requirement where
  | object
  | known
  | string
  | array
  | nonempty
  | extension
  | integer
  | positive
deriving DecidableEq

def Requirement.message : Requirement → Text
  | .object => "must be object"
  | .known => "must NOT have additional properties"
  | .string => "must be string"
  | .array => "must be array"
  | .nonempty => "must NOT have fewer than 1 characters"
  | .extension => "must match pattern \"^\\.[^./\\\\]+$\""
  | .integer => "must be integer"
  | .positive => "must be >= 1"

/-- A requirement that a value does not meet, and the path of the value. -/
structure Violation where
  path : Text
  requirement : Requirement
deriving DecidableEq

def Violation.message (violation : Violation) : Text :=
  violation.path ++ " " ++ violation.requirement.message

namespace Config

def schemaName : Text := "$schema"

def excludeName : Text := "exclude"

def extensionsName : Text := "documentExtensions"

def substitutionsName : Text := "maxAttributeSubstitutions"

/-- The members that a configuration may have. -/
def knownNames : List Text := [schemaName, excludeName, extensionsName, substitutionsName]

/-- Whether a text is a dot and a name without dots and slashes. -/
def isExtension (text : Text) : Bool :=
  match text with
  | '.' :: name => !name.isEmpty && !name.any fun c => c = '.' || c = '/' || c = '\\'
  | _ => false

/-- A violation, unless the requirement is met. -/
def demand (holds : Bool) (path : Text) (requirement : Requirement) : List Violation :=
  if holds then [] else [⟨path, requirement⟩]

def checkTexts (path : Text) (requirement : Requirement) (meets : Text → Bool) :
    Json → List Violation
  | .array items => items.zipIdx.flatMap fun (item, index) =>
    let itemPath := path ++ "/" ++ Text.ofNat index
    match item with
    | .string text => demand (meets text) itemPath requirement
    | _ => [⟨itemPath, .string⟩]
  | _ => [⟨path, .array⟩]

def checkMember (name : Text) (value : Json) : List Violation :=
  let path := '/' :: name
  if name = schemaName then
    match value with
    | .string _ => []
    | _ => [⟨path, .string⟩]
  else if name = excludeName then checkTexts path .nonempty (fun text => !text.isEmpty) value
  else if name = extensionsName then checkTexts path .extension isExtension value
  else
    match value with
    | .number number =>
      demand number.isInteger path .integer ++ demand (!number.isBelowOne) path .positive
    | _ => [⟨path, .integer⟩]

/-- Everything that is wrong with a configuration. -/
def check : Json → List Violation
  | .object members =>
    let unknown := members.filter fun member => !knownNames.contains member.1
    unknown.map (fun _ => ⟨[], .known⟩) ++
      knownNames.flatMap fun name =>
        ((Members.get? name members).map (checkMember name)).getD []
  | _ => [⟨[], .object⟩]

def texts? : Json → Option (List Text)
  | .array items => some (items.filterMap fun
    | .string text => some text
    | _ => none)
  | _ => none

/-- The configuration that a valid file describes. What it leaves out has its default. -/
def ofMembers (members : List (Text × Json)) : Config :=
  let texts (name : Text) (fallback : List Text) : List Text :=
    ((Members.get? name members).bind texts?).getD fallback
  { exclude := texts excludeName default.exclude
    documentExtensions := texts extensionsName default.documentExtensions
    maxSubstitutions :=
      match Members.get? substitutionsName members with
      | some (.number number) => number.toNat
      | _ => default.maxSubstitutions }

/-- The configuration of a file's value, or everything that is wrong with it. -/
def ofJson (value : Json) : Except (List Violation) Config :=
  match check value, value with
  | [], .object members => .ok (ofMembers members)
  | violations, _ => .error violations

end Config

end Crossref

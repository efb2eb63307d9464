import Crossref.Attribute.Expansion
import Crossref.Resolution

/-! Checking references: every block macro that names a file is expanded and resolved, and found to
exist or not. -/

set_option autoImplicit false

namespace Crossref

/-- The block macros that name files, each with the family of a target that names none. -/
def referenceMacros : List (Text × Option Family) :=
  [("image", some .images), ("video", some .images), ("audio", some .images), ("include", none)]

inductive ReferenceStatus where
  | resolved
  | missing
  | ambiguous
deriving DecidableEq

def ReferenceStatus.name : ReferenceStatus → Text
  | .resolved => "resolved"
  | .missing => "missing"
  | .ambiguous => "ambiguous"

/-- A reference as it is written, its place, and the files that it may mean. -/
structure Reference extends Location where
  macroName : Text
  target : Text
  status : ReferenceStatus
  candidates : List Text
deriving DecidableEq

namespace Project

/-- The files that an expanded target may mean: an absolute path means itself, a key means what it
resolves to, and all else is a path relative to the document. -/
def targetCandidates (project : Project) (disk : Disk) (file target : Text)
    (defaultFamily : Option Family) : Noted (List Text) := do
  if Path.isAbsolute target then return [disk.canonical target]
  else
    let beside := match disk.parent? file with
      | none => [target]
      | some path => [disk.canonical (Path.joinParts [path, target])]
    if ((Key.ofText target).family.orElse fun _ => defaultFamily).isSome then
      let resolved ← project.resolveFrom disk file target defaultFamily
      let candidates := resolved.filter Path.isAbsolute
      return if candidates.isEmpty then beside else candidates
    else return beside

/-- Checks one target. A target that expands to a web address is no reference. -/
def checkTarget (project : Project) (disk : Disk) (location : Location) (macroName target : Text)
    (defaultFamily : Option Family) : Noted (Option Reference) := do
  match ← project.expand disk location.file target project.config.maxSubstitutions with
  | none => return some ⟨location, macroName, target, .ambiguous, []⟩
  | some expanded =>
    if isUrl expanded then return none
    else
      let candidates ← project.targetCandidates disk location.file expanded defaultFamily
      let status := if candidates.any disk.exists? then .resolved else .missing
      return some ⟨location, macroName, target, status, candidates⟩

/-- Checks the reference that a macro name and a target behind it make, if they make one. -/
def checkTokens (project : Project) (disk : Disk) (file : Text) (lines : LineTable)
    (id body : Token) : Noted (Option Reference) :=
  let macroName := id.text.take (id.text.length - 2)
  match id.kind, body.kind, List.lookup macroName referenceMacros with
  | .blockMacroId, .blockMacroBody, some family =>
    project.checkTarget disk ⟨file, lines.lineOf id.start⟩ macroName body.text family
  | _, _, _ => return none

/-- Checks the references of a document, in order. -/
def checkDocument (project : Project) (disk : Disk) (file text : Text) : Noted (List Reference) := do
  let tokens := Token.ofText text
  let lines := LineTable.ofText text
  let found ← (tokens.zip (tokens.drop 1)).mapM fun (id, body) =>
    project.checkTokens disk file lines id body
  return found.filterMap id

/-- Checks the references of every document that can be read, in the order of the files. -/
def checkAll (project : Project) (disk : Disk) : Noted (List Reference) := do
  let results ← (findDocuments disk project.root project.config).mapM fun file =>
    match disk.readText? file with
    | none => return []
    | some text => project.checkDocument disk file text
  return results.flatten

end Project

end Crossref

import Crossref.Project

/-! Resolving keys: from the parts of a key to the modules that it names, and to the files that it
may mean. -/

set_option autoImplicit false

namespace Crossref

/-- What a key names once nothing is left out. A component or a version may have no name. -/
structure Target where
  component : Option Text
  moduleName : Text
  version : Option Text
deriving DecidableEq

namespace Target

/-- Fills in what a key leaves out. The component and the version are those of the anchor, and so
is the module of a key that names no component either; an empty or missing module is the root
module, and an empty version is the lack of a version. -/
def ofKey (anchor : Target) (key : Key) : Target :=
  let moduleName :=
    match key.moduleName, key.component with
    | some name, _ => name
    | none, none => anchor.moduleName
    | none, some _ => []
  { component := key.component.orElse fun _ => anchor.component
    moduleName := if moduleName.isEmpty then rootModuleName else moduleName
    version :=
      match key.version with
      | none => anchor.version
      | some version => if version.isEmpty then none else some version }

/-- The directory of the target's module in the component of a descriptor, if it is the component
that the target names. -/
def moduleDirIn? (target : Target) (disk : Disk) (descriptor : Descriptor) : Option Text :=
  if descriptor.name = target.component && descriptor.version = target.version then
    (descriptor.modulesDir.bind fun modules => disk.child? modules target.moduleName).filter
      disk.isDirectory
  else none

end Target

namespace Project

/-- The directories of the modules that a key names, with the closest component first. A component
without a name cannot be named. -/
def targetModules (project : Project) (disk : Disk) (anchorDir : Text) (key : Key) :
    Noted (List Text) := do
  match ← Descriptor.readAnchor disk anchorDir with
  | none => return []
  | some anchor =>
    let target := Target.ofKey ⟨anchor.name, disk.name anchorDir, anchor.version⟩ key
    if target.component.isNone then return []
    else
      let descriptors ← project.readDescriptors disk
      return (Descriptor.sortByProximity descriptors anchorDir).filterMap
        (target.moduleDirIn? disk)

/-- The path of a resource in a module, if the module has the directory of the family. -/
def candidateIn? (project : Project) (disk : Disk) (family : Family) (remainder moduleDir : Text) :
    Option Text :=
  (disk.familyDir? project.root moduleDir family).map fun path =>
    Path.toForwardSlashes path ++ if remainder.isEmpty then [] else '/' :: remainder

def existingFirst (disk : Disk) (paths : List Text) : List Text :=
  paths.filter disk.exists? ++ paths.filter fun path => !disk.exists? path

/-- The files that a key may mean as seen from a module directory. A web address, a key without a
family, and a key that names no module with the family come back unchanged. -/
def resolve (project : Project) (disk : Disk) (anchorDir key : Text)
    (defaultFamily : Option Family) : Noted (List Text) := do
  if isUrl key then return [key]
  else
    match ← Descriptor.readAnchor disk anchorDir with
    | none => return [key]
    | some _ =>
      let parts := Key.ofText key
      match parts.family.orElse fun _ => defaultFamily with
      | none => return [key]
      | some family =>
        let modules ← project.targetModules disk anchorDir parts
        let candidates := modules.filterMap (project.candidateIn? disk family parts.remainder)
        return if candidates.isEmpty then [key] else existingFirst disk candidates

/-- The files that a key may mean as seen from a file. Outside of every module it comes back
unchanged. -/
def resolveFrom (project : Project) (disk : Disk) (file key : Text)
    (defaultFamily : Option Family) : Noted (List Text) :=
  match (disk.parent? file).bind (disk.moduleRoot? project.root) with
  | none => return [key]
  | some moduleDir => project.resolve disk moduleDir key defaultFamily

def resolveAddress (project : Project) (disk : Disk) (moduleDir key : Text) : Noted (List Text) :=
  project.targetModules disk moduleDir { Key.ofText key with family := none }

end Project

end Crossref

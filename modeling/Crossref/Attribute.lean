import Crossref.Project

/-! The attributes that are visible from a file: those that documents declare, and those that the
file's module and build define, which hide declarations of the same name. -/

set_option autoImplicit false

namespace Crossref

/-- Where an attribute comes from: a document, the directories of a module, or a descriptor. -/
inductive Attribute where
  | indexed (entry : IndexedAttribute)
  | directory (name value : Text)
  | metadata (name value : Text)
deriving DecidableEq

namespace Attribute

def name : Attribute → Text
  | indexed entry => entry.name
  | directory name _ => name
  | metadata name _ => name

/-- The value of an attribute. Only a document can unset one. -/
def value : Attribute → Option Text
  | indexed entry => entry.value
  | directory _ value => some value
  | metadata _ value => some value

def snippetsName : Text := "snippets"

/-- The families whose directories are attributes, in the order in which they are listed. -/
def families : List Family := [.partials, .images, .attachments, .examples]

/-- The attribute of a family's directory, such as `imagesdir`. -/
def ofFamily (family : Family) (path : Text) : Attribute :=
  directory (family.name ++ "sdir") (Path.toForwardSlashes path)

def ofDescriptor (descriptor : Descriptor) (moduleName : Text) : List Attribute :=
  let optional (name : Text) (value : Option Text) : List Attribute :=
    value.toList.map (metadata name)
  optional "page-component-name" descriptor.name ++
    optional "page-component-version" descriptor.version ++
    optional "page-component-title" descriptor.title ++ [metadata "page-module" moduleName] ++
    descriptor.attributes.map fun (name, value) => metadata name value

end Attribute

namespace Project

def snippetsAttributes (project : Project) (disk : Disk) (file : Text) : List Attribute :=
  ((disk.parent? file).bind (disk.snippetsDir? project.root)).toList.map fun path =>
    .directory Attribute.snippetsName (Path.toForwardSlashes path)

def moduleAttributes (project : Project) (disk : Disk) (file : Text) : Noted (List Attribute) :=
  match disk.parent? file with
  | none => return []
  | some path =>
    match disk.moduleRoot? project.root path with
    | none => return []
    | some moduleDir => do
      let directories := Attribute.families.filterMap fun family =>
        (disk.familyDir? project.root path family).map (Attribute.ofFamily family)
      match ← Descriptor.readAnchor disk moduleDir with
      | none => return directories
      | some descriptor =>
        return directories ++ Attribute.ofDescriptor descriptor (disk.name moduleDir)

def findAttributes (project : Project) (disk : Disk) (name file : Text) : Noted (List Attribute) := do
  let key := Text.lower name
  let snippets := if key = Attribute.snippetsName then project.snippetsAttributes disk file else []
  let defined ← project.moduleAttributes disk file
  let found := snippets ++ defined.filter fun candidate => candidate.name = key
  return if found.isEmpty then (project.index.attributes.get key).map .indexed else found

def allAttributes (project : Project) (disk : Disk) (file : Text) : Noted (List Attribute) := do
  let declared := project.index.attributes.values.map Attribute.indexed
  return declared ++ project.snippetsAttributes disk file ++ (← project.moduleAttributes disk file)

end Project

end Crossref

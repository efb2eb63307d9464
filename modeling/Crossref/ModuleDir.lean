import Crossref.Disk
import Crossref.Family

/-! Where things are by convention: module roots, the directories of resource families, and the
output of build tools. Each is looked for in a directory and then in the directories above it. -/

set_option autoImplicit false

namespace Crossref

/-- The file that describes a component. -/
def descriptorName : Text := "antora.yml"

/-- The directory of a component that holds its modules. -/
def modulesName : Text := "modules"

def rootModuleName : Text := "ROOT"

namespace Disk

/-- The directories from `start` upwards, at most `fuel` of them. The last one is `root`, or else
the root of the disk. -/
def climb (disk : Disk) (root : Text) : Nat → Text → List Text
  | 0, _ => []
  | fuel + 1, start =>
    if start = root then [start]
    else
      match disk.parent? start with
      | none => [start]
      | some above => start :: disk.climb root fuel above

/-- The directories from `start` up to the project root. A start that is not below the project root
leads to the root of the disk. Every directory has a shorter path than the one before it, so there
are no more of them than the path of `start` has characters. -/
def ancestors (disk : Disk) (root start : Text) : List Text :=
  disk.climb root ((disk.canonical start).length + 1) start

/-- Whether a directory holds a module: it lies in a directory for modules, next to which the
descriptor of the component lies. -/
def isModuleRoot (disk : Disk) (path : Text) : Bool :=
  match disk.parent? path with
  | none => false
  | some modules =>
    disk.name modules = modulesName &&
      match disk.parent? modules with
      | none => false
      | some component => (disk.child? component descriptorName).isSome

/-- The closest module that holds `start`. -/
def moduleRoot? (disk : Disk) (root start : Text) : Option Text :=
  (disk.ancestors root start).find? disk.isModuleRoot

/-- A directory and its path from the module root. -/
structure FamilyDir where
  path : Text
  below : Text
deriving DecidableEq

def descend? (disk : Disk) (path : Text) (names : List Text) : Option Text :=
  names.foldlM disk.child? path

def familyDirIn? (disk : Disk) (moduleRoot : Text) (family : Family) : Option FamilyDir :=
  family.directories.findSome? fun names =>
    match disk.descend? moduleRoot names with
    | none => none
    | some path => if disk.isDirectory path then some ⟨path, Text.join "/" names⟩ else none

/-- The directory of a family in the closest module that has one. -/
def familyDir? (disk : Disk) (root start : Text) (family : Family) : Option Text :=
  (disk.ancestors root start).findSome? fun path =>
    if disk.isModuleRoot path then (disk.familyDirIn? path family).map (·.path) else none

/-- The way from `start` to the directory of a family: up to its module and down again. -/
def familyDirFrom? (disk : Disk) (root start : Text) (family : Family) : Option Text :=
  (disk.ancestors root start).zipIdx.findSome? fun (path, depth) =>
    if disk.isModuleRoot path then
      (disk.familyDirIn? path family).map fun found =>
        (List.replicate depth "../".toList).flatten ++ found.below
    else none

/-- The build files that are known, each with the directory its tool writes to. -/
def buildLayouts : List (Text × Text) :=
  [("pom.xml", "target"), ("build.gradle", "build"), ("build.gradle.kts", "build")]

/-- The directory of a build tool's output that holds generated snippets. -/
def snippetsName : Text := "generated-snippets"

/-- The generated snippets of the closest build whose output has them. -/
def snippetsDir? (disk : Disk) (root start : Text) : Option Text :=
  (disk.ancestors root start).findSome? fun path =>
    buildLayouts.findSome? fun (buildFile, output) =>
      match disk.child? path buildFile with
      | none => none
      | some _ => disk.descend? path [output, snippetsName]

end Disk

end Crossref

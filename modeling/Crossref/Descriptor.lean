import Crossref.Descriptor.Content
import Crossref.Key
import Crossref.ModuleDir
import Crossref.Notice

/-! Component descriptors on a disk: what a descriptor file says, and the modules next to it. -/

set_option autoImplicit false

namespace Crossref

/-- A module and its directory. -/
structure ModuleEntry where
  name : Text
  path : Text
deriving DecidableEq

structure Descriptor extends DescriptorContent where
  file : Text
  componentDir : Text
  modulesDir : Option Text
  modules : List ModuleEntry
deriving DecidableEq

namespace Descriptor

/-- The modules in a directory: its directories whose names can stand in a key. -/
def listModules (disk : Disk) (modulesDir : Text) : List ModuleEntry :=
  ((disk.children modulesDir).filter fun path =>
    disk.isDirectory path && (disk.name path).all isKeyChar).map fun path => ⟨disk.name path, path⟩

/-- What a descriptor file says. A malformed file says nothing, which is noted. -/
def readContent (disk : Disk) (file : Text) : Noted DescriptorContent :=
  match DescriptorContent.ofText ((disk.readText? file).getD []) with
  | .ok content => return content
  | .error error => do
    Noted.tell .detail ("Ignoring malformed " ++ file ++ ": " ++ error.message)
    return .empty

/-- Reads a descriptor file. A malformed one still has its modules. -/
def read (disk : Disk) (file : Text) : Noted (Option Descriptor) :=
  match disk.parent? file with
  | none => return none
  | some componentDir => do
    let content ← readContent disk file
    let modulesDir := disk.child? componentDir modulesName
    let modules := (modulesDir.map (listModules disk)).getD []
    return some ⟨content, file, componentDir, modulesDir, modules⟩

def anchorFile? (disk : Disk) (moduleDir : Text) : Option Text := do
  let modulesDir ← disk.parent? moduleDir
  let componentDir ← disk.parent? modulesDir
  disk.child? componentDir descriptorName

def readAnchor (disk : Disk) (moduleDir : Text) : Noted (Option Descriptor) :=
  match anchorFile? disk moduleDir with
  | none => return none
  | some file => read disk file

def proximity (path : Text) (descriptor : Descriptor) : Nat :=
  Text.sharedUnits descriptor.file path

/-- The descriptors with the closest to a directory first; equally close ones keep their order. -/
def sortByProximity (descriptors : List Descriptor) (path : Text) : List Descriptor :=
  ((descriptors.map fun descriptor => (descriptor.proximity path, descriptor)).mergeSort
    fun left right => right.1 ≤ left.1).map (·.2)

end Descriptor

end Crossref

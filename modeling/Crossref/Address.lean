import Crossref.Distinct
import Crossref.Project

/-! Module addresses: what can stand in front of a key to name a module, as seen from another
module. -/

set_option autoImplicit false

namespace Crossref

/-- A way to address a module, with what is known about the module. -/
structure ModuleAddress where
  text : Text
  componentName : Option Text
  moduleName : Text
  title : Option Text
  moduleDir : Text
deriving DecidableEq

namespace ModuleAddress

/-- The version in front of an address; it is left out if it is the version of the anchor. -/
def versionMark (anchor descriptor : Descriptor) : Text :=
  if descriptor.version = anchor.version then [] else descriptor.version.getD [] ++ ['@']

/-- The addresses of one module: by its name within the same component, by the component alone for
the root module, and by component and name. -/
def ofModule (anchor descriptor : Descriptor) (entry : ModuleEntry) : List ModuleAddress :=
  let version := versionMark anchor descriptor
  let component := descriptor.name.getD []
  let address (text : Text) : ModuleAddress :=
    ⟨version ++ text, descriptor.name, entry.name, descriptor.title, entry.path⟩
  let within := if descriptor.name = anchor.name then [address (entry.name ++ ":")] else []
  let root := if entry.name = rootModuleName then [address (component ++ "::")] else []
  within ++ root ++ [address (component ++ ":" ++ entry.name ++ ":")]

def componentTitle? (descriptors : List Descriptor) (componentName : Option Text) : Option Text :=
  (descriptors.filter fun descriptor => descriptor.name = componentName).findSome? (·.title)

/-- The addresses of the modules of some descriptors. The first module keeps an address that
several share, and a missing title is taken from another version of the component. -/
def ofDescriptors (anchor : Descriptor) (descriptors : List Descriptor) : List ModuleAddress :=
  let candidates := descriptors.flatMap fun descriptor =>
    descriptor.modules.flatMap (ofModule anchor descriptor)
  (distinctBy (·.text) candidates).map fun address =>
    { address with
      title := address.title.orElse fun _ => componentTitle? descriptors address.componentName }

end ModuleAddress

/-- Every address that can be used in a module directory, with the closest component first. A
directory without a component has none. -/
def Project.moduleAddresses (project : Project) (disk : Disk) (moduleDir : Text) :
    Noted (List ModuleAddress) := do
  match ← Descriptor.readAnchor disk moduleDir with
  | none => return []
  | some anchor =>
    let descriptors ← project.readDescriptors disk
    return ModuleAddress.ofDescriptors anchor (Descriptor.sortByProximity descriptors moduleDir)

end Crossref

import Crossref.Config
import Crossref.Declaration.Index
import Crossref.Descriptor
import Crossref.Disk.Search

/-! A documentation project: a directory with its configuration, and the index of its documents.
The index is a snapshot. It does not follow the disk until it is built anew. -/

set_option autoImplicit false

namespace Crossref

structure Project where
  root : Text
  config : Config
  configFile : Option Text
  index : Index
  /-- The number of read actions that are under way. -/
  readDepth : Nat

namespace Project

/-- Every file of a name outside of excluded directories, in ascending order. -/
def findFilesNamed (project : Project) (disk : Disk) (name : Text) : List Text :=
  disk.findFiles project.root (fun found => found = name) project.config.exclude

def isDocumentName (config : Config) (name : Text) : Bool :=
  (config.documentExtensions.map Text.lower).contains (Text.lower (Path.extension name))

/-- Every document outside of excluded directories, in ascending order. -/
def findDocuments (disk : Disk) (root : Text) (config : Config) : List Text :=
  disk.findFiles root (isDocumentName config) config.exclude

/-- The documents that can be read; for each of the others there is a warning. -/
def readSources (disk : Disk) : List Text → Noted (List Source)
  | [] => return []
  | path :: rest =>
    match disk.readText? path with
    | some text => do return ⟨path, text⟩ :: (← readSources disk rest)
    | none => do
      Noted.tell .warning ("Could not read " ++ path)
      readSources disk rest

def buildIndex (disk : Disk) (root : Text) (config : Config) : Noted Index := do
  return Index.ofSources (← readSources disk (findDocuments disk root config))

def ofDirectory (disk : Disk) (root : Text) (config : Config) (configFile : Option Text) :
    Noted Project := do
  let root := disk.canonical root
  return ⟨root, config, configFile, ← buildIndex disk root config, 0⟩

/-- The descriptors of all components, in ascending order of their files. -/
def readDescriptors (project : Project) (disk : Disk) : Noted (List Descriptor) := do
  let found ← (project.findFilesNamed disk descriptorName).mapM (Descriptor.read disk)
  return found.filterMap id

def rebuild (project : Project) (disk : Disk) : Noted Project := do
  return { project with index := ← buildIndex disk project.root project.config }

end Project

end Crossref

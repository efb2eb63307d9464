import Crossref.Disk.Entry

/-! A disk: a finite tree of files and directories with a working directory. Looking a path up
requires a directory at every step, so `dir/file/` and `missing/../dir` lead nowhere even though
they can be tidied. -/

set_option autoImplicit false

namespace Crossref

structure Disk where
  root : Entry
  cwd : Text
  [sound : root.Sound]

namespace Disk

/-- The entry at a path. The empty path and a path with the character NUL lead nowhere. -/
def entry? (disk : Disk) (path : Text) : Option Entry :=
  if path.isEmpty || path.contains '\x00' then none
  else disk.root.walk? [] (Path.components (Path.absolute disk.cwd path))

def exists? (disk : Disk) (path : Text) : Bool := (disk.entry? path).isSome

def isDirectory (disk : Disk) (path : Text) : Bool :=
  match disk.entry? path with
  | some (.directory _) => true
  | _ => false

/-- The content of the file at a path. -/
def readText? (disk : Disk) (path : Text) : Option Text :=
  match disk.entry? path with
  | some (.file text) => some text
  | _ => none

def list? (disk : Disk) (path : Text) : Option (List (Text × Entry)) :=
  match disk.entry? path with
  | some (.directory entries) => some entries
  | _ => none

/-- The directory that holds a path. The root has none. -/
def parent? (disk : Disk) (path : Text) : Option Text := Path.parent? disk.cwd path

def name (disk : Disk) (path : Text) : Text := Path.name disk.cwd path

def canonical (disk : Disk) (path : Text) : Text := Path.canonical disk.cwd path

def child? (disk : Disk) (path name : Text) : Option Text :=
  let below := Path.joinParts [disk.canonical path, name]
  if disk.exists? below then some below else none

/-- The paths of all children, in ascending order of their names. -/
def children (disk : Disk) (path : Text) : List Text :=
  let here := disk.canonical path
  let names := ((disk.list? here).getD []).map (·.1)
  (Text.sort names).map fun name => Path.joinParts [here, name]

def names (disk : Disk) (path : Text) : List Text :=
  Path.resolveDots false (Path.components (Path.absolute disk.cwd path))

/-- Changes the entry that some names lead to. The root stays a directory, and names that no
directory may list lead nowhere. -/
def update (disk : Disk) (change : Option Entry → Entry)
    (keeps : ∀ old, (∀ entry ∈ old, entry.isSound) → (change old).isSound)
    (names : List Text) : Disk :=
  if allowed : names ≠ [] ∧ names.all Entry.isEntryName then
    { disk with
      root := Entry.update change names (some disk.root)
      sound := ⟨Entry.isSound_update keeps allowed.2 fun _ same =>
        Option.some.inj same ▸ disk.sound.checked⟩ }
  else disk

/-- Writes a file, with the directories above it. -/
def write (disk : Disk) (path text : Text) : Disk :=
  disk.update (fun _ => .file text) (fun _ _ => rfl) (disk.names path)

/-- Makes a directory, with the directories above it. One that exists is kept. -/
def makeDirectory (disk : Disk) (path : Text) : Disk :=
  disk.update (fun old => .directory ((old.map Entry.listing).getD []))
    (fun _ sound => Entry.isSoundIn_listing sound) (disk.names path)

/-- Deletes a file, or a directory with all that it holds. -/
def remove (disk : Disk) (path : Text) : Disk :=
  { disk with
    root := disk.root.erase (disk.names path)
    sound := ⟨Entry.isSound_erase _ disk.sound.checked⟩ }

/-- Why text cannot be appended to a file. -/
inductive AppendError where
  | noParent
  | isDirectory
deriving DecidableEq

/-- Appends to the file at a path. The file is made if only its own name is missing. -/
def append (disk : Disk) (path text : Text) : Except AppendError Disk :=
  match disk.entry? path with
  | some (.directory _) => .error .isDirectory
  | some (.file old) => .ok (disk.write path (old ++ text))
  | none =>
    if disk.isDirectory (Path.directory path) && path.getLast? ≠ some '/' && !path.contains '\x00' then
      .ok (disk.write path text)
    else .error .noParent

end Disk

end Crossref

import Crossref.CommandLine.Run
import Crossref.Disk.Listing
import Std.Time.Format

/-! The program on a real disk. A run sees a copy of the files below the working directory and below
the directories that its arguments name, and of the files in the directories above them. What it
shows and logs is carried out afterwards. -/

set_option autoImplicit false

open Crossref

namespace Program

/-- The content of a file. Bytes that are no text count as an empty file. -/
def readContent (entry : IO.FS.DirEntry) : IO Text := do
  try
    let bytes ← IO.FS.readBinFile entry.path
    return ((String.fromUTF8? bytes).map String.toList).getD []
  catch _ => return []

/-- A copy of a file, or of a directory with all that it holds. Linked directories are not
followed. -/
partial def copy (entry : IO.FS.DirEntry) : IO Entry := do
  let metadata ← entry.path.symlinkMetadata
  if metadata.type == .dir then
    let entries ← (← entry.path.readDir).toList.mapM fun child => do
      return (child.fileName.toList, ← copy child)
    return .directory entries
  else return .file (← readContent entry)

/-- Puts an entry on a disk, below the directories on the way to it. -/
def place (disk : Disk) (path : Text) (entry : Entry) : Disk :=
  if sound : entry.isSound then disk.update (fun _ => entry) (fun _ _ => sound) (disk.names path)
  else disk

def above (disk : Disk) (path : Text) : List Text :=
  let names := disk.names path
  (List.range names.length).map fun count => Path.ofNames (names.take count)

def addFiles (disk : Disk) (path : Text) : IO Disk := do
  try
    let directory := (← IO.currentDir) / String.ofList path
    (← directory.readDir).toList.foldlM (fun disk child => do
      if (← child.path.symlinkMetadata).type == .file then
        return place disk (Path.join [path, child.fileName.toList]) (.file (← readContent child))
      else return disk) disk
  catch _ => return disk

/-- Adds a directory with all that it holds, and the files in the directories above it. -/
def addTree (disk : Disk) (path : Text) : IO Disk := do
  let directory := (← IO.currentDir) / String.ofList path
  if ← directory.isDir then
    let disk ← (above disk path).foldlM addFiles disk
    let entries ← (← directory.readDir).toList.mapM fun child => do
      return (child.fileName.toList, ← copy child)
    return place disk path (.directory entries)
  else return disk

/-- The directories that arguments name, also behind an equality sign and as those of files. -/
def named (disk : Disk) (arguments : List Text) : List Text :=
  let values := arguments.flatMap fun argument =>
    [argument, (argument.dropWhile (· ≠ '=')).drop 1]
  (values.filter fun value => !value.isEmpty).flatMap fun value =>
    let path := disk.canonical value
    path :: (disk.parent? path).toList.filter fun parent => parent ≠ "/"

def isBelow (directories : List Text) (path : Text) : Bool :=
  directories.any fun directory =>
    directory = "/" || path = directory || (directory ++ "/").isPrefixOf path

def copyDisk (arguments : List Text) : IO Disk := do
  let cwd := (← IO.currentDir).toString.toList
  let start ← addTree ⟨.directory [], cwd⟩ cwd
  let (disk, _) ← (named start arguments).foldlM (fun (disk, seen) path => do
    if isBelow seen path then return (disk, seen)
    else return (← addTree disk path, path :: seen)) (start, [cwd])
  return disk

/-- The variables that the program looks at. -/
def copyEnvironment : IO Environment := do
  let names : List String := ["NODE_ENV", "JEST_WORKER_ID", String.ofList Options.logVariable]
  names.foldlM (fun environment name => do
    match ← IO.getEnv name with
    | some value => return environment.set name value.toList
    | none => return environment) .empty

def now : IO Text := do
  let time := Std.Time.DateTime.ofTimestampWithZone (← Std.Time.Timestamp.now) .UTC
  return (time.format "uuuu-MM-dd'T'HH:mm:ss.SSS'Z'").toList

/-- Shows what a session has shown, and adds to the log file what the session has added to it. -/
def carryOut (before : Disk) (session : Session) : IO Session := do
  IO.print (String.ofList session.shown)
  (← IO.getStdout).flush
  if let some path := session.logFile then
    let old := (before.readText? path).getD []
    let added := ((session.disk.readText? path).getD []).drop old.length
    unless added.isEmpty do
      IO.FS.withFile (String.ofList path) .append fun file => file.putStr (String.ofList added)
  return { session with shown := [] }

/-- How long a watch waits before it looks at the disk again, in milliseconds. -/
def interval : Nat := 100

/-- What happened to the files of some paths between two looks at the disk. -/
def changes (isWatched : Text → Bool) (before after : Disk) : List (WatchEvent × WatchEvent) :=
  let written := (Disk.changedFiles before after).map fun (path, text) =>
    let change : Text := if before.exists? path then "change" else "add"
    (path, WatchEvent.unseen (.write path text), WatchEvent.changed change path)
  let removed := (before.files.filter fun file => !after.exists? file.1).map fun (path, _) =>
    (path, WatchEvent.unseen (.remove path), WatchEvent.changed "unlink" path)
  ((written ++ removed).filter fun change => isWatched change.1).map Prod.snd

/-- Moves a watch on and carries out what it shows and logs. A failure that ends the program is thrown. -/
def react (watch : Watch) (event : WatchEvent) : IO Watch := do
  let before := watch.workspace.session.disk
  let (result, after) := Watch.react event watch
  let session ← carryOut before after.workspace.session
  if let .error failure := result then
    unless watch.outlives event do throw (IO.userError (String.ofList failure.message))
  return { after with workspace := { after.workspace with session } }

/-- Watches the files below the root of a project until the program is stopped. -/
partial def follow (known : Disk) (watch : Watch) : IO Unit := do
  IO.sleep interval.toUInt32
  let session := watch.workspace.session
  let found ← addTree ⟨.directory [], session.disk.cwd⟩ watch.workspace.project.root
  let isWatched (path : Text) : Bool :=
    isBelow [watch.workspace.project.root] path && session.logFile.map session.disk.canonical ≠ path
  let time ← now
  let timed := { watch with
    workspace := { watch.workspace with session := { session with time } } }
  let changed ← (changes isWatched known found).foldlM (fun watch (unseen, change) => do
    react (← react watch unseen) change) timed
  follow found (← react changed (.passed interval))

def run (arguments : List Text) : IO UInt32 := do
  let disk ← copyDisk arguments
  match Run.ofArguments arguments (.start disk (← copyEnvironment) (← now)) with
  | .ended ending =>
    let _ ← carryOut disk ending.session
    IO.eprint (String.ofList ending.complaint)
    if let some failure := ending.crash then IO.eprintln (String.ofList failure.message)
    return ending.exitCode.toUInt32
  | .watching watch =>
    let session ← carryOut disk watch.workspace.session
    follow disk { watch with workspace := { watch.workspace with session } }
    return 0

end Program

def main (arguments : List String) : IO UInt32 := Program.run (arguments.map String.toList)

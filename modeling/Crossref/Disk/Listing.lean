import Crossref.Disk

/-! All files of a disk, and those that differ between two disks. -/

set_option autoImplicit false

namespace Crossref

namespace Entry

mutual

def files (path : Text) : Entry → List (Text × Text)
  | file text => [(path, text)]
  | directory entries => filesIn path entries

def filesIn (path : Text) : List (Text × Entry) → List (Text × Text)
  | [] => []
  | (name, entry) :: rest => files (path ++ '/' :: name) entry ++ filesIn path rest

end

end Entry

namespace Disk

/-- All files with their paths and contents. -/
def files (disk : Disk) : List (Text × Text) := disk.root.files []

/-- The files that are not on the disk `before` or have another content there, in ascending order of
their paths. -/
def changedFiles (before after : Disk) : List (Text × Text) :=
  let old := before.files
  let changed := after.files.filter fun entry => !old.contains entry
  changed.mergeSort fun left right => Text.le left.1 right.1

end Disk

end Crossref

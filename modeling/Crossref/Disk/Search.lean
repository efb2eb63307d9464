import Crossref.Disk

/-! Finding files below a directory. A directory with an excluded name is not entered.

Paths are joined with forward slashes only, so the path built for a name with a backslash may lead
elsewhere, even back to a directory already entered. A chain of entered directories longer than
the tree has directories enters one of them again and so has no end. -/

set_option autoImplicit false

namespace Crossref.Disk

/-- The files below a path whose names are accepted, with at most `depth` directories entered in a
chain, and `none` if a chain is longer. A path that is no directory holds nothing. -/
def filesBelow? (disk : Disk) (accept : Text → Bool) (excluded : List Text) :
    Nat → Text → Option (List Text)
  | 0, _ => none
  | depth + 1, path =>
    match disk.list? path with
    | none => some []
    | some entries =>
      (entries.mapM fun ((name, entry) : Text × Entry) =>
        let below := Path.joinParts [path, name]
        match entry with
        | Entry.file _ => some (if accept name then [below] else [])
        | Entry.directory _ =>
          if excluded.contains name then some []
          else disk.filesBelow? accept excluded depth below).map List.flatten

/-- The accepted files below a directory, in ascending order. A search without an end has no result, and the empty
list that stands for it means nothing. -/
def findFiles (disk : Disk) (root : Text) (accept : Text → Bool) (excluded : List Text) :
    List Text :=
  let depth := disk.root.directoryCount + 1
  Text.sort ((disk.filesBelow? accept excluded depth (disk.canonical root)).getD [])

end Crossref.Disk

import Crossref.Text

/-! Path arithmetic with forward slashes. Nothing here looks at a disk: a path is tidied by its
spelling alone. -/

set_option autoImplicit false

namespace Crossref.Path

/-- A path in which slashes of both kinds are forward slashes. -/
def toForwardSlashes (path : Text) : Text := path.map fun c => if c = '\\' then '/' else c

def isAbsolute (path : Text) : Bool := path.head? = some '/'

/-- What stands between the slashes of a path. -/
def components (path : Text) : List Text := Text.pieces (· = '/') path

/-- Follows one component from a position given by names, nearest first. An empty component and a
dot stay. Two dots leave the nearest name; with nothing to leave they are kept if `above` holds. -/
def follow (above : Bool) (position : List Text) (component : Text) : List Text :=
  if component = [] || component = "." then position
  else if component = ".." then
    match position with
    | [] => if above then [component] else []
    | nearest :: rest => if nearest = ".." && above then component :: position else rest
  else component :: position

/-- The names that remain of components once dots are resolved. -/
def resolveDots (above : Bool) (path : List Text) : List Text :=
  (path.foldl (follow above) []).reverse

def ofNames (names : List Text) : Text := '/' :: Text.join "/" names

/-- Resolves dots and repeated slashes but keeps a trailing slash. Nothing left is a dot. -/
def normalize (path : Text) : Text :=
  let absolute := isAbsolute path
  let body := Text.join "/" (resolveDots (!absolute) (components path))
  let trailing : Text := if path.getLast? = some '/' then "/" else []
  if absolute then
    if body.isEmpty then "/" else '/' :: body ++ trailing
  else if body.isEmpty then '.' :: trailing
  else body ++ trailing

def join (parts : List Text) : Text :=
  let joined := Text.join "/" (parts.filter fun part => !part.isEmpty)
  if joined.isEmpty then "." else normalize joined

def joinParts (parts : List Text) : Text := toForwardSlashes (join parts)

/-- The absolute path that `path` spells from the working directory `cwd`. -/
def absolute (cwd path : Text) : Text := if isAbsolute path then path else cwd ++ '/' :: path

/-- The absolute path without dots, repeated slashes or a trailing slash. -/
def resolve (cwd path : Text) : Text :=
  ofNames (resolveDots false (components (absolute cwd path)))

/-- The path under which files are compared: resolved, with forward slashes only. -/
def canonical (cwd path : Text) : Text := toForwardSlashes (resolve cwd path)

/-- The part of a path before its last component, as it is spelled. -/
def directory (path : Text) : Text :=
  let isSlash (c : Char) : Bool := c = '/'
  match (path.reverse.dropWhile isSlash).dropWhile (fun c => !isSlash c) with
  | [] => if isAbsolute path then "/" else "."
  | [_] => if isAbsolute path then "/" else "."
  | [_, _] => if isAbsolute path then "//" else path.take 1
  | _ :: rest => rest.reverse

/-- The last component of a path; trailing slashes do not count. -/
def base (path : Text) : Text :=
  ((path.reverse.dropWhile (· = '/')).takeWhile (· ≠ '/')).reverse

/-- The last dot of a file name and what follows it. A name that has nothing before that dot has no
extension, and neither has the name of two dots. -/
def extension (name : Text) : Text :=
  let after := (name.reverse.takeWhile (· ≠ '.')).reverse
  if after.length + 1 < name.length && name ≠ ".." then '.' :: after else []

/-- The directory that holds a path. The root has none. -/
def parent? (cwd path : Text) : Option Text :=
  let here := canonical cwd path
  let above := canonical cwd (directory here)
  if above = here then none else some above

/-- The name of the file or directory that a path leads to; the root's is empty. -/
def name (cwd path : Text) : Text := base (canonical cwd path)

def dropShared : List Text → List Text → List Text × List Text
  | a :: left, b :: right => if a = b then dropShared left right else (a :: left, b :: right)
  | left, right => (left, right)

/-- The path that leads from one path to another, empty if they are the same. -/
def relative (cwd start target : Text) : Text :=
  let names (path : Text) := resolveDots false (components (absolute cwd path))
  let (up, down) := dropShared (names start) (names target)
  Text.join "/" (up.map (fun _ => (".." : Text)) ++ down)

end Crossref.Path

import Crossref.Proofs.Ascent

/-! Canonical paths. A path is resolved first and its backslashes become slashes behind that, so a name that
holds backslashes is cut into segments that nothing resolves any more. -/

set_option autoImplicit false

namespace Crossref

namespace Path

/-- What stands behind the slashes of an absolute path; behind the slash of the root there is nothing. -/
def segments (path : Text) : List Text := if path = "/" then [] else (components path).tail

/-- The form of a path under which files are compared. -/
structure IsCanonical (path : Text) : Prop where
  absolute : isAbsolute path
  noEmpty : [] ∉ segments path
  noDot : ("." : Text) ∉ segments path
  noDots : (".." : Text) ∉ segments path
  noTrailing : path ≠ "/" → path.getLast? ≠ some '/'
  noBackslash : '\\' ∉ path

/-- The segments that a name is cut into when its backslashes become slashes. -/
def cut (name : Text) : List Text := components (toForwardSlashes name)

theorem cut_ne_nil (name : Text) : cut name ≠ [] := List.splitOnP_ne_nil _ _

theorem noSlash_of_mem_cut {name segment : Text} (mem : segment ∈ cut name) : '/' ∉ segment :=
  fun slash => (mem_of_mem_components mem slash).2 rfl

theorem noBackslash_of_mem_cut {name segment : Text} (mem : segment ∈ cut name) : '\\' ∉ segment :=
  fun backslash => notMem_toForwardSlashes name (mem_of_mem_components mem backslash).1

theorem cut_of_noBackslash {name : Text} (noSlash : '/' ∉ name) (noBackslash : '\\' ∉ name) :
    cut name = [name] := by
  rw [cut, toForwardSlashes_of_notMem noBackslash, components_of_notMem noSlash]

/-- Turning the slashes of a path of names cuts each name on its own. -/
theorem toForwardSlashes_ofNames (names : List Text) :
    toForwardSlashes (ofNames names) = ofNames (names.flatMap cut) := by
  induction names with
  | nil => rfl
  | cons name rest ih =>
      have alone : toForwardSlashes (ofNames [name]) = ofNames (cut name) := by
        rw [ofNames_singleton, cut, ofNames_components]
        rfl
      by_cases empty : rest = []
      · rw [empty, alone, List.flatMap_singleton]
      · obtain ⟨first, behind, rfl⟩ := List.exists_cons_of_ne_nil empty
        have restCut : (first :: behind).flatMap cut ≠ [] := by
          rw [List.flatMap_cons]
          exact List.append_ne_nil_of_left_ne_nil (cut_ne_nil first) _
        calc toForwardSlashes (ofNames (name :: first :: behind))
            = toForwardSlashes (ofNames [name] ++ ofNames (first :: behind)) :=
              congrArg toForwardSlashes (ofNames_append (List.cons_ne_nil name []) empty)
          _ = ofNames (cut name) ++ ofNames ((first :: behind).flatMap cut) := by
              rw [toForwardSlashes_append, alone, ih]
          _ = ofNames ((name :: first :: behind).flatMap cut) := by
              rw [← ofNames_append (cut_ne_nil name) restCut]
              rfl

theorem ofNames_ne_root {names : List Text} (nonempty : names ≠ []) (named : ∀ name ∈ names, IsName name) :
    ofNames names ≠ "/" := by
  intro root
  refine getLast?_ofNames_ne nonempty named ?_
  rw [root]
  rfl

theorem isCanonical_ofNames {names : List Text} (plain : Plain names) : IsCanonical (ofNames names) := by
  have named : ∀ name ∈ names, IsName name := fun name listed => (plain name listed).1
  have segmented : ∀ segment ∈ segments (ofNames names), IsName segment := by
    intro segment mem
    rw [segments] at mem
    split at mem
    · cases mem
    · next below =>
        have nonempty : names ≠ [] := by
          rintro rfl
          exact below rfl
        rw [components_ofNames nonempty fun name listed => (named name listed).noSlash] at mem
        exact named segment mem
  refine ⟨rfl, fun mem => (segmented _ mem).nonempty rfl, fun mem => (segmented _ mem).noDot rfl,
    fun mem => (segmented _ mem).noDots rfl, fun below => ?_, notMem_ofNames plain⟩
  refine getLast?_ofNames_ne ?_ named
  rintro rfl
  exact below rfl

theorem IsCanonical.isName_of_mem_segments {path segment : Text} (canonical : IsCanonical path)
    (mem : segment ∈ segments path) : IsName segment := by
  refine ⟨fun empty => canonical.noEmpty (empty ▸ mem), fun dot => canonical.noDot (dot ▸ mem),
    fun dots => canonical.noDots (dots ▸ mem), fun slash => ?_⟩
  rw [segments] at mem
  split at mem
  · cases mem
  · exact (mem_of_mem_components (List.mem_of_mem_tail mem) slash).2 rfl

/-- A canonical path is that of its segments, which no path spells in two ways. -/
theorem IsCanonical.eq_ofNames {path : Text} (canonical : IsCanonical path) :
    Plain (segments path) ∧ path = ofNames (segments path) := by
  obtain ⟨behind, rfl⟩ := exists_of_isAbsolute canonical.absolute
  refine ⟨fun segment mem => ⟨canonical.isName_of_mem_segments mem, fun backslash => ?_⟩, ?_⟩
  · rw [segments] at mem
    split at mem
    · cases mem
    · exact canonical.noBackslash (mem_of_mem_components (List.mem_of_mem_tail mem) backslash).1
  · rw [segments]
    split
    · next root => exact root
    · have split : components ('/' :: behind) = [] :: components behind := components_append [] behind
      rw [split, List.tail_cons, ofNames_components]

end Path

namespace Disk

variable (disk : Disk)

/-- The segments of a canonical path are those that its names are cut into. -/
theorem canonical_eq_ofNames (path : Text) :
    disk.canonical path = Path.ofNames ((disk.names path).flatMap Path.cut) :=
  Path.toForwardSlashes_ofNames (disk.names path)

/-- The canonical paths are those that stay the same. -/
theorem canonical_eq_self_iff (path : Text) : disk.canonical path = path ↔ Path.IsCanonical path := by
  constructor
  · intro same
    obtain ⟨plain, spelled⟩ := ofNames_of_canonical same
    exact spelled ▸ Path.isCanonical_ofNames plain
  · intro canonical
    obtain ⟨plain, spelled⟩ := canonical.eq_ofNames
    rw [spelled]
    exact Path.canonical_ofNames disk.cwd plain

theorem isCanonical_canonical_of_notMem {path : Text} (absolute : Path.isAbsolute path) (noBackslash : '\\' ∉ path) :
    Path.IsCanonical (disk.canonical path) := by
  rw [disk.canonical_of_notMem absolute noBackslash]
  exact Path.isCanonical_ofNames (disk.plain_names absolute noBackslash)

theorem segments_canonical (path : Text) :
    Path.segments (disk.canonical path) = (disk.names path).flatMap Path.cut := by
  have named : ∀ name ∈ disk.names path, Path.IsName name := fun name mem => (disk.isName_of_mem_names mem).2
  have cutSlash : ∀ segment ∈ (disk.names path).flatMap Path.cut, '/' ∉ segment := by
    intro segment mem
    obtain ⟨name, _, part⟩ := List.mem_flatMap.mp mem
    exact Path.noSlash_of_mem_cut part
  rw [canonical_eq_ofNames]
  cases spelled : disk.names path with
  | nil => rfl
  | cons first rest =>
      rw [spelled] at named cutSlash
      have nonempty : (first :: rest).flatMap Path.cut ≠ [] := by
        rw [List.flatMap_cons]
        exact List.append_ne_nil_of_left_ne_nil (Path.cut_ne_nil first) _
      -- as many characters as the path of the names, which is not the root
      have below : Path.ofNames ((first :: rest).flatMap Path.cut) ≠ "/" := by
        rw [← Path.toForwardSlashes_ofNames]
        intro root
        have joined := List.map_eq_nil_iff.mp (List.cons.inj root).2
        exact Path.ofNames_ne_root (List.cons_ne_nil first rest) named (congrArg (List.cons '/') joined)
      rw [Path.segments, if_neg below, Path.components_ofNames nonempty cutSlash, List.tail_cons]

theorem isCanonical_canonical_iff (path : Text) :
    Path.IsCanonical (disk.canonical path) ↔
      ∀ name ∈ disk.names path, ∀ segment ∈ Path.cut name, Path.IsName segment := by
  constructor
  · intro canonical name listed segment part
    refine canonical.isName_of_mem_segments ?_
    rw [segments_canonical]
    exact List.mem_flatMap.mpr ⟨name, listed, part⟩
  · intro parts
    rw [canonical_eq_ofNames]
    refine Path.isCanonical_ofNames fun segment mem => ?_
    obtain ⟨name, listed, part⟩ := List.mem_flatMap.mp mem
    exact ⟨parts name listed segment part, Path.noBackslash_of_mem_cut part⟩

/-- What tidying gives is absolute and holds no backslash. It is canonical, and stays the same if it is tidied once
more, if and only if the backslashes of every resolved name stand between names; and what is tidied twice always is. A
path that spells no backslash at all has no such name. -/
theorem canonical_iff_backslashes_separate_names (path : Text) :
    Path.isAbsolute (disk.canonical path) ∧ '\\' ∉ disk.canonical path ∧
    (Path.IsCanonical (disk.canonical path) ↔
      ∀ name ∈ disk.names path, ∀ segment ∈ Path.cut name, Path.IsName segment) ∧
    (disk.canonical (disk.canonical path) = disk.canonical path ↔ Path.IsCanonical (disk.canonical path)) ∧
    Path.IsCanonical (disk.canonical (disk.canonical path)) ∧
    ('\\' ∉ Path.absolute disk.cwd path → Path.IsCanonical (disk.canonical path)) := by
  have absolute := Path.isAbsolute_canonical disk.cwd path
  have noBackslash : '\\' ∉ disk.canonical path := Path.notMem_toForwardSlashes _
  refine ⟨absolute, noBackslash, disk.isCanonical_canonical_iff path, disk.canonical_eq_self_iff _,
    disk.isCanonical_canonical_of_notMem absolute noBackslash, fun spelledWithout => ?_⟩
  refine (disk.isCanonical_canonical_iff path).mpr fun name listed segment part => ?_
  obtain ⟨component, isName⟩ := disk.isName_of_mem_names listed
  have plain : '\\' ∉ name := fun backslash => spelledWithout (Path.mem_of_mem_components component backslash).1
  rw [Path.cut_of_noBackslash isName.noSlash plain, List.mem_singleton] at part
  exact part ▸ isName

/-- A relative path with dots and slashes to resolve, on a disk that works in a directory. -/
theorem canonical_iff_backslashes_separate_names_of_relative :
    let disk : Disk := { root := .directory [], cwd := "/proj/docs" }
    '\\' ∉ Path.absolute disk.cwd "../a//./b/../c/" ∧ Path.IsCanonical (disk.canonical "../a//./b/../c/") ∧
      disk.canonical "../a//./b/../c/" = "/proj/a/c" := by
  intro disk
  have plain : '\\' ∉ Path.absolute disk.cwd "../a//./b/../c/" := by decide
  obtain ⟨_, _, _, _, _, spelledWithout⟩ := disk.canonical_iff_backslashes_separate_names "../a//./b/../c/"
  exact ⟨plain, spelledWithout plain, by decide⟩

/-- Backslashes that become slashes next to dots, next to one another and at the end of a path. -/
theorem canonical_path_may_hold_dots :
    let disk : Disk := { root := .directory [], cwd := "/proj" }
    disk.canonical "/a\\..\\b" = "/a/../b" ∧ disk.canonical "/a/../b" = "/b" ∧
      disk.canonical "/a\\\\b" = "/a//b" ∧ disk.canonical "/a\\" = "/a/" ∧
      ¬ ∀ path, Path.IsCanonical (disk.canonical path) ∧ disk.canonical (disk.canonical path) = disk.canonical path := by
  intro disk
  refine ⟨by decide, by decide, by decide, by decide, fun claimed => ?_⟩
  exact (claimed "/a\\..\\b").1.noDots (by decide)

end Disk

end Crossref

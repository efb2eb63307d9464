import Crossref.Proofs.ModuleDir

/-! The way from a directory to that of a family: as many steps up as the module is above the directory,
and down again. Followed from the directory it leads to where the search for the family ends. -/

set_option autoImplicit false

namespace Crossref

namespace Path

theorem foldl_follow_dots (count : Nat) (position : List Text) :
    (List.replicate count "..".toList).foldl (follow false) position = position.drop count := by
  induction count generalizing position with
  | zero => rfl
  | succ count ih => rw [List.replicate_succ, List.foldl_cons, follow_dots, ih, List.drop_tail]

theorem components_up (count : Nat) (behind : Text) :
    components ((List.replicate count "../".toList).flatten ++ behind) =
      List.replicate count "..".toList ++ components behind := by
  induction count with
  | zero => rfl
  | succ count ih =>
      have alone : components ".." = ["..".toList] := rfl
      have cut := components_append ".." ((List.replicate count "../".toList).flatten ++ behind)
      rw [ih, alone] at cut
      exact cut

/-- Steps up undo as many names. -/
theorem resolveDots_up_down {front rest below : List Text} (named : ∀ name ∈ front ++ rest, IsName name)
    (belowNamed : ∀ name ∈ below, IsName name) :
    resolveDots false ([] :: (front ++ rest) ++ (List.replicate rest.length "..".toList ++ below)) =
      front ++ below := by
  have stays : follow false [] [] = [] := rfl
  have undone : (rest.reverse ++ front.reverse).drop rest.length = front.reverse :=
    List.drop_left' List.length_reverse
  rw [resolveDots, List.foldl_append, List.foldl_cons, stays, foldl_follow_of_isName named,
    List.append_nil, List.reverse_append, List.foldl_append, foldl_follow_dots, undone,
    foldl_follow_of_isName belowNamed, List.reverse_append, List.reverse_reverse, List.reverse_reverse]

theorem canonical_joinParts_up_down (cwd : Text) {front rest below : List Text} (nonempty : front ≠ [])
    (plain : Plain (front ++ rest)) (belowNonempty : below ≠ []) (belowPlain : Plain below) :
    canonical cwd (joinParts [ofNames (front ++ rest),
        (List.replicate rest.length "../".toList).flatten ++ Text.join "/" below]) =
      ofNames (front ++ below) := by
  have named : ∀ name ∈ front ++ rest, IsName name := fun name mem => (plain name mem).1
  have belowNamed : ∀ name ∈ below, IsName name := fun name mem => (belowPlain name mem).1
  have targetPlain : Plain (front ++ below) := plain.of_append.append belowPlain
  have joinedNonempty : Text.join "/" below ≠ [] := by
    intro empty
    apply getLast?_ofNames_ne belowNonempty belowNamed
    rw [ofNames, empty]
    rfl
  have noTrailing :
      ((List.replicate rest.length "../".toList).flatten ++ Text.join "/" below).getLast? ≠ some '/' := by
    have ends : (ofNames below).getLast? = (Text.join "/" below).getLast? :=
      List.getLast?_append_of_ne_nil ['/'] joinedNonempty
    rw [List.getLast?_append_of_ne_nil _ joinedNonempty, ← ends]
    exact getLast?_ofNames_ne belowNonempty belowNamed
  have joined : join [ofNames (front ++ rest),
        (List.replicate rest.length "../".toList).flatten ++ Text.join "/" below] =
      ofNames (front ++ below) := by
    rw [join_relative rfl (List.append_ne_nil_of_right_ne_nil _ joinedNonempty) noTrailing, components_up,
      components_join belowNonempty fun name mem => (belowNamed name mem).noSlash,
      components_ofNames (List.append_ne_nil_of_left_ne_nil nonempty _) fun name mem =>
        (named name mem).noSlash,
      resolveDots_up_down named belowNamed]
  rw [joinParts, joined, toForwardSlashes_of_notMem (notMem_ofNames targetPlain),
    canonical_ofNames cwd targetPlain]

end Path

theorem findSome?_congr_of_mem {α β : Type} {first second : α → Option β} {items : List α}
    (same : ∀ item ∈ items, first item = second item) : items.findSome? first = items.findSome? second := by
  induction items with
  | nil => rfl
  | cons item rest ih =>
      obtain ⟨here, further⟩ := List.forall_mem_cons.mp same
      rw [List.findSome?_cons, List.findSome?_cons, here, ih further]

namespace Disk

variable {disk : Disk} {root : Text} {family : Family} {front names : List Text}

theorem familyDirIn?_spec {found : FamilyDir} (plain : Path.Plain front)
    (kept : disk.familyDirIn? (Path.ofNames front) family = some found) :
    ∃ names ∈ family.directories, found = ⟨Path.ofNames (front ++ names), Text.join "/" names⟩ := by
  obtain ⟨names, mem, here⟩ := List.exists_of_findSome?_eq_some kept
  obtain ⟨nonempty, namesPlain⟩ := Family.plain_of_mem_directories mem
  refine ⟨names, mem, ?_⟩
  split at here
  · cases here
  · next path descended =>
      obtain ⟨rfl, _⟩ := (descend?_eq_some_iff nonempty (plain.append namesPlain)).mp descended
      split at here
      · exact (Option.some.inj here).symm
      · cases here

/-- The way to the directory of a family, followed from its start, leads to the directory. -/
theorem map_familyDirFrom? (plain : Path.Plain names) :
    (disk.familyDirFrom? root (Path.ofNames names) family).map (fun relative =>
        disk.canonical (Path.joinParts [Path.ofNames names, relative])) =
      disk.familyDir? root (Path.ofNames names) family := by
  have ascent : disk.Ascent root (Path.ofNames names) (disk.ancestors root (Path.ofNames names)) :=
    ascent_ancestors
  have places : disk.ancestors root (Path.ofNames names) =
      (disk.ancestors root (Path.ofNames names)).zipIdx.map Prod.fst :=
    (List.zipIdx_map_fst 0 _).symm
  rw [familyDir?_eq, places, List.findSome?_map, familyDirFrom?, List.map_findSome?]
  apply findSome?_congr_of_mem
  intro place mem
  obtain ⟨path, depth⟩ := place
  obtain ⟨front, rest, rfl, rfl, rfl⟩ := ascent.exists_front_of_mem_zipIdx plain mem
  simp only [Function.comp_apply, keptDir?]
  split
  · next isModule =>
      rw [Option.map_map]
      apply Option.map_congr
      intro found kept
      obtain ⟨below, listed, rfl⟩ := familyDirIn?_spec plain.of_append kept
      obtain ⟨belowNonempty, belowPlain⟩ := Family.plain_of_mem_directories listed
      rw [Nat.zero_add]
      exact Path.canonical_joinParts_up_down disk.cwd (ne_nil_of_isModuleRoot isModule) plain
        belowNonempty belowPlain
  · rfl

/-- From a tidied start there is a way to a family's directory exactly if the family is found, and joined to
the start it names the directory that is found. -/
theorem way_to_family_denotes_its_directory (disk : Disk) (root : Text) {start : Text}
    (startCanonical : disk.canonical start = start) (family : Family) :
    (disk.familyDirFrom? root start family = none ↔ disk.familyDir? root start family = none) ∧
    ∀ relative, disk.familyDirFrom? root start family = some relative →
      disk.familyDir? root start family = some (disk.canonical (Path.joinParts [start, relative])) := by
  obtain ⟨plain, spelled⟩ := ofNames_of_canonical startCanonical
  have denotes : (disk.familyDirFrom? root start family).map (fun relative =>
        disk.canonical (Path.joinParts [start, relative])) = disk.familyDir? root start family := by
    rw [← spelled]
    exact map_familyDirFrom? plain
  rw [← denotes]
  constructor
  · exact Option.map_eq_none_iff.symm
  · intro relative found
    rw [found, Option.map_some]

/-- From two directories below a module, whose preferred directory of images is a file. -/
theorem way_to_family_denotes_its_directory_two_levels_up :
    let root : Text := "/p"
    let start : Text := "/p/modules/m/pages/sub"
    let disk : Disk :=
      { root := .directory [("p", .directory [("antora.yml", .file "name: c\n"),
          ("modules", .directory [("m", .directory [
            ("assets", .directory [("images", .file "")]), ("images", .directory []),
            ("pages", .directory [("sub", .directory [])])])])])]
        cwd := "/p"
        sound := ⟨by decide⟩ }
    disk.canonical start = start ∧
    disk.familyDirFrom? root start .images = some ("../../images" : Text) ∧
    disk.canonical (Path.joinParts [start, "../../images"]) = "/p/modules/m/images".toList ∧
    disk.familyDir? root start .images = some ("/p/modules/m/images" : Text) := by
  intro root start disk
  have startCanonical : disk.canonical start = start := by decide +kernel
  have way : disk.familyDirFrom? root start .images = some ("../../images" : Text) := by decide +kernel
  have leads : disk.canonical (Path.joinParts [start, "../../images"]) = "/p/modules/m/images".toList := by
    decide +kernel
  have denotes := (way_to_family_denotes_its_directory disk root startCanonical .images).2 _ way
  exact ⟨startCanonical, way, leads, denotes.trans (congrArg some leads)⟩

end Disk

end Crossref

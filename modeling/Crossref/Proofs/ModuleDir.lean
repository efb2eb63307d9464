import Mathlib.Data.List.Induction
import Crossref.Proofs.Ascent

/-! Where modules keep their families. A family is looked for in the closest module that has one of its
directories. -/

set_option autoImplicit false

namespace Crossref

theorem Family.plain_of_mem_directories {family : Family} {names : List Text}
    (mem : names ∈ family.directories) : names ≠ [] ∧ Path.Plain names := by
  have plain : ∀ names ∈ family.directories, names ≠ [] ∧ Path.Plain names := by
    cases family <;> decide
  exact plain names mem

namespace Disk

variable {disk : Disk} {root : Text} {family : Family} {front names : List Text}

theorem exists?_of_append {rest : List Text} (nonempty : front ≠ [])
    (plain : Path.Plain (front ++ rest)) (present : disk.exists? (Path.ofNames (front ++ rest))) :
    disk.exists? (Path.ofNames front) := by
  induction rest using List.reverseRecOn with
  | nil => rwa [List.append_nil] at present
  | append_singleton init name ih =>
      rw [← List.append_assoc] at plain present
      obtain ⟨entry, found⟩ := Option.isSome_iff_exists.mp present
      obtain ⟨entries, listing, _⟩ :=
        disk.mem_of_entry? (List.append_ne_nil_of_left_ne_nil nonempty init) plain found
      apply ih plain.of_concat
      rw [exists?, disk.entry?_of_list? listing, Option.isSome_some]

theorem descend?_eq_some_iff {found : Text} (nonempty : names ≠ []) (plain : Path.Plain (front ++ names)) :
    disk.descend? (Path.ofNames front) names = some found ↔
      found = Path.ofNames (front ++ names) ∧ disk.exists? found := by
  induction names generalizing front with
  | nil => exact absurd rfl nonempty
  | cons name rest ih =>
      have whole : front ++ name :: rest = front ++ [name] ++ rest := by simp
      rw [whole] at plain ⊢
      have firstPlain : Path.Plain (front ++ [name]) := plain.of_append
      obtain ⟨isName, noBackslash⟩ := firstPlain name List.mem_concat_self
      have descended : disk.descend? (Path.ofNames front) (name :: rest) =
          (disk.child? (Path.ofNames front) name).bind fun below => disk.descend? below rest := by
        rw [descend?, List.foldlM_cons]
        rfl
      have lookedUp : ∀ below, disk.child? (Path.ofNames front) name = some below ↔
          below = Path.ofNames (front ++ [name]) ∧ disk.exists? below := fun _ =>
        disk.child?_ofNames_name_iff firstPlain.of_concat isName noBackslash
      rw [descended]
      cases rest with
      | nil =>
          have only : ((disk.child? (Path.ofNames front) name).bind fun below => disk.descend? below []) =
              disk.child? (Path.ofNames front) name := Option.bind_fun_some _
          rw [only, lookedUp, List.append_nil]
      | cons second behind =>
          cases child : disk.child? (Path.ofNames front) name with
          | some below =>
              obtain ⟨rfl, _⟩ := (lookedUp below).mp child
              exact ih (List.cons_ne_nil _ _) plain
          | none =>
              constructor
              · intro found
                cases found
              · rintro ⟨rfl, present⟩
                have firstPresent := exists?_of_append (List.concat_ne_nil _ _) plain present
                exact nomatch child.symm.trans ((lookedUp _).mpr ⟨rfl, firstPresent⟩)

theorem filter_descend?_eq_some_iff {found : Text} (nonempty : names ≠ [])
    (plain : Path.Plain (front ++ names)) :
    (disk.descend? (Path.ofNames front) names).filter disk.isDirectory = some found ↔
      found = Path.ofNames (front ++ names) ∧ disk.isDirectory found := by
  rw [Option.filter_eq_some_iff, descend?_eq_some_iff nonempty plain, and_assoc]
  apply and_congr_right
  intro _
  exact and_iff_right_of_imp disk.exists?_of_isDirectory

/-- A module keeps a family in the first one of the family's directories that it has. -/
def KeepsFamily (disk : Disk) (family : Family) (moduleDir found : Text) : Prop :=
  disk.isModuleRoot moduleDir ∧ ∃ before names after, family.directories = before ++ names :: after ∧
    found = moduleDir ++ '/' :: Text.join "/" names ∧ disk.isDirectory found ∧
    ∀ other ∈ before, ¬ disk.isDirectory (moduleDir ++ '/' :: Text.join "/" other)

/-- A search for a family leaves a directory that keeps no directory of it for the one above, unless the
directory is `root`. -/
def LeavesForFamily (disk : Disk) (root : Text) (family : Family) (path above : Text) : Prop :=
  path ≠ root ∧ (∀ found, ¬ disk.KeepsFamily family path found) ∧ disk.parent? path = some above

/-- The module in which a search for a family ends, and the directory of the family there. -/
def ReachesFamily (disk : Disk) (root : Text) (family : Family) (start moduleDir found : Text) : Prop :=
  Relation.ReflTransGen (disk.LeavesForFamily root family) start moduleDir ∧
    disk.KeepsFamily family moduleDir found

def keptDir? (disk : Disk) (family : Family) (path : Text) : Option Text :=
  if disk.isModuleRoot path then (disk.familyDirIn? path family).map (·.path) else none

theorem familyDir?_eq (start : Text) (family : Family) :
    disk.familyDir? root start family = (disk.ancestors root start).findSome? (disk.keptDir? family) :=
  rfl

theorem map_path_familyDirIn? (moduleDir : Text) (family : Family) :
    (disk.familyDirIn? moduleDir family).map (·.path) =
      family.directories.findSome? fun names =>
        (disk.descend? moduleDir names).filter disk.isDirectory := by
  rw [familyDirIn?, List.map_findSome?]
  congr 1
  funext names
  simp only [Function.comp_apply]
  cases disk.descend? moduleDir names with
  | none => rfl
  | some path =>
      rw [Option.filter_some, apply_ite (Option.map fun dir : FamilyDir => dir.path)]
      rfl

/-- The directory of the root has no module above it. -/
theorem ne_nil_of_isModuleRoot (isModule : disk.isModuleRoot (Path.ofNames front)) : front ≠ [] := by
  rintro rfl
  rw [isModuleRoot, parent?_ofNames_nil] at isModule
  cases isModule

theorem keepsFamily_ofNames_iff {found : Text} (plain : Path.Plain front) :
    disk.KeepsFamily family (Path.ofNames front) found ↔
      disk.keptDir? family (Path.ofNames front) = some found := by
  rw [KeepsFamily, keptDir?]
  split
  case isFalse noModule =>
    exact iff_of_false (fun keeps => noModule keeps.1) (fun found => nomatch found)
  case isTrue isModule =>
    have nonempty := ne_nil_of_isModuleRoot isModule
    have spelled : ∀ names ∈ family.directories,
        Path.ofNames (front ++ names) = Path.ofNames front ++ '/' :: Text.join "/" names :=
      fun names mem => Path.ofNames_append nonempty (Family.plain_of_mem_directories mem).1
    have lookedUp : ∀ names ∈ family.directories, ∀ path,
        (disk.descend? (Path.ofNames front) names).filter disk.isDirectory = some path ↔
          path = Path.ofNames front ++ '/' :: Text.join "/" names ∧ disk.isDirectory path := by
      intro names mem path
      rw [← spelled names mem]
      obtain ⟨namesNonempty, namesPlain⟩ := Family.plain_of_mem_directories mem
      exact filter_descend?_eq_some_iff namesNonempty (plain.append namesPlain)
    rw [map_path_familyDirIn?, List.findSome?_eq_some_iff]
    apply (and_iff_right isModule).trans
    apply exists_congr; intro before
    apply exists_congr; intro names
    apply exists_congr; intro after
    apply and_congr_right; intro split
    have here : names ∈ family.directories := by rw [split]; simp
    rw [lookedUp names here, and_assoc]
    apply and_congr_right; intro _
    apply and_congr_right; intro _
    apply forall₂_congr
    intro other mem
    have listed : other ∈ family.directories := by rw [split]; simp [mem]
    rw [Option.eq_none_iff_forall_ne_some]
    constructor
    · intro absent path present
      obtain ⟨rfl, directory⟩ := (lookedUp other listed path).mp present
      exact absent directory
    · intro absent directory
      exact absent _ ((lookedUp other listed _).mpr ⟨rfl, directory⟩)

/-- Going up from a path of plain names leads through such paths only. -/
theorem plain_of_goesUp (goesUp other : Text → Text → Prop) {dir : Text}
    (parent : ∀ path above, goesUp path above → disk.parent? path = some above)
    (implies : ∀ names above, Path.Plain names → goesUp (Path.ofNames names) above →
      other (Path.ofNames names) above)
    (plain : Path.Plain names) (run : Relation.ReflTransGen goesUp (Path.ofNames names) dir) :
    (∃ front, Path.Plain front ∧ dir = Path.ofNames front) ∧
      Relation.ReflTransGen other (Path.ofNames names) dir := by
  induction run with
  | refl => exact ⟨⟨names, plain, rfl⟩, .refl⟩
  | tail _ step ih =>
      obtain ⟨⟨front, frontPlain, rfl⟩, before⟩ := ih
      exact ⟨exists_ofNames_of_parent? (parent _ _ step), before.tail (implies front _ frontPlain step)⟩

theorem familyDir?_eq_some_iff {found : Text} (plain : Path.Plain names) :
    disk.familyDir? root (Path.ofNames names) family = some found ↔
      ∃ moduleDir, disk.ReachesFamily root family (Path.ofNames names) moduleDir found := by
  have keeps : ∀ front, Path.Plain front → (disk.keptDir? family (Path.ofNames front) = none ↔
      ∀ other, ¬ disk.KeepsFamily family (Path.ofNames front) other) := by
    intro front frontPlain
    simp only [Option.eq_none_iff_forall_ne_some, keepsFamily_ofNames_iff frontPlain, ne_eq]
  rw [familyDir?_eq, findSome?_ancestors_iff]
  apply exists_congr
  intro moduleDir
  constructor
  · rintro ⟨run, isHit⟩
    obtain ⟨⟨front, frontPlain, rfl⟩, run⟩ := plain_of_goesUp (disk.Passes (disk.keptDir? family) root)
      (disk.LeavesForFamily root family) (fun _ _ step => step.2.2)
      (fun front _ frontPlain step => ⟨step.1, (keeps front frontPlain).mp step.2.1, step.2.2⟩)
      plain run
    exact ⟨run, (keepsFamily_ofNames_iff frontPlain).mpr isHit⟩
  · rintro ⟨run, isKept⟩
    obtain ⟨⟨front, frontPlain, rfl⟩, run⟩ := plain_of_goesUp (disk.LeavesForFamily root family)
      (disk.Passes (disk.keptDir? family) root) (fun _ _ step => step.2.2)
      (fun front _ frontPlain step => ⟨step.1, (keeps front frontPlain).mpr step.2.1, step.2.2⟩)
      plain run
    exact ⟨run, (keepsFamily_ofNames_iff frontPlain).mp isKept⟩

section Found

variable {start moduleDir found : Text}

theorem KeepsFamily.exists_ofNames (plain : Path.Plain names)
    (keeps : disk.KeepsFamily family (Path.ofNames names) found) :
    ∃ below, below ≠ [] ∧ Path.Plain below ∧ found = Path.ofNames below := by
  obtain ⟨isModule, before, kept, after, split, spelled, _⟩ := keeps
  have listed : kept ∈ family.directories := by
    rw [split]
    exact List.mem_append_right _ List.mem_cons_self
  obtain ⟨keptNonempty, keptPlain⟩ := Family.plain_of_mem_directories listed
  have nonempty := ne_nil_of_isModuleRoot isModule
  refine ⟨names ++ kept, List.append_ne_nil_of_left_ne_nil nonempty _, plain.append keptPlain, ?_⟩
  rw [Path.ofNames_append nonempty keptNonempty]
  exact spelled

theorem ReachesFamily.exists_ofNames (plain : Path.Plain names)
    (reaches : disk.ReachesFamily root family (Path.ofNames names) moduleDir found) :
    ∃ below, below ≠ [] ∧ Path.Plain below ∧ found = Path.ofNames below := by
  obtain ⟨run, keeps⟩ := reaches
  obtain ⟨⟨front, frontPlain, rfl⟩, _⟩ := plain_of_goesUp _ (disk.LeavesForFamily root family)
    (fun _ _ step => step.2.2) (fun _ _ _ step => step) plain run
  exact keeps.exists_ofNames frontPlain

theorem isDirectory_of_familyDir? (plain : Path.Plain names)
    (kept : disk.familyDir? root (Path.ofNames names) family = some found) :
    disk.isDirectory found ∧ '\\' ∉ found := by
  obtain ⟨moduleDir, reaches⟩ := (familyDir?_eq_some_iff plain).mp kept
  obtain ⟨below, _, belowPlain, spelled⟩ := reaches.exists_ofNames plain
  obtain ⟨_, _, _, _, _, _, _, isDirectory, _⟩ := reaches
  exact ⟨isDirectory, spelled ▸ Path.notMem_ofNames belowPlain⟩

end Found

end Disk

end Crossref

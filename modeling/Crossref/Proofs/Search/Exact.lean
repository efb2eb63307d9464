import Crossref.Proofs.Config
import Crossref.Proofs.Disk.Reordered
import Crossref.Proofs.Search.Below

/-! What a search finds on a plain disk: the files below a directory with an accepted name and no
excluded one between them, in ascending order, whatever the order in which directories are listed. -/

set_option autoImplicit false

namespace Crossref

namespace Disk

variable {disk : Disk} {accept : Text → Bool} {excluded : List Text}

/-- A file below a directory, where no directory between them has an excluded name. -/
def IsFileBelow (disk : Disk) (excluded : List Text) (named : Text → Prop) (top path : Text) : Prop :=
  disk.isDirectory top ∧ ∃ front name text, (∀ other ∈ front, Path.IsName other ∧ other ∉ excluded) ∧
    Path.IsName name ∧ named name ∧ path = Path.ofNames (disk.names top ++ front ++ [name]) ∧
    disk.readText? path = some text

theorem readText?_eq_some_iff {path text : Text} :
    disk.readText? path = some text ↔ disk.entry? path = some (.file text) := by
  rw [readText?]
  split
  · next found =>
      rw [found]
      simp
  · next other =>
      refine iff_of_false (fun none => ?_) (other text)
      cases none

/-- On a plain disk what is accepted in a directory are files right below it. -/
theorem mem_accepted_iff (rootPlain : disk.root.isPlain) {path file : Text}
    (forward : Path.IsForward path) :
    file ∈ Sweep.accepted disk accept path ↔ disk.isDirectory path ∧ ∃ name text, Path.IsName name ∧
      accept name ∧ file = Path.ofNames (disk.names path ++ [name]) ∧
      disk.readText? file = some text := by
  rw [Sweep.mem_accepted_iff]
  constructor
  · rintro ⟨name, text, lists, accepted, rfl⟩
    obtain ⟨isDirectory, isName, found⟩ := lists_iff.mp lists
    rw [(joinParts_of_lists rootPlain forward lists).1]
    exact ⟨isDirectory, name, text, isName, accepted, rfl, readText?_eq_some_iff.mpr found⟩
  · rintro ⟨isDirectory, name, text, isName, accepted, rfl, readable⟩
    have lists := lists_iff.mpr ⟨isDirectory, isName, readText?_eq_some_iff.mp readable⟩
    exact ⟨name, text, lists, accepted, (joinParts_of_lists rootPlain forward lists).1.symm⟩

theorem mem_findFiles_iff (rootPlain : disk.root.isPlain) {root path : Text} :
    path ∈ disk.findFiles root accept excluded ↔
      disk.IsFileBelow excluded (accept ·) (disk.canonical root) path := by
  have forward := disk.isForward_canonical root
  obtain ⟨taken, (drains : Sweep.Drains disk excluded _ _), _, members⟩ :=
    Sweep.exists_drains_of_isPlain rootPlain forward
  rw [Sweep.findFiles_eq_sort drains, Text.mem_sort, List.mem_flatMap]
  constructor
  · rintro ⟨directory, isTaken, mem⟩
    rcases (members directory).mp isTaken with rfl | ⟨isDirectory, front, nonempty, kept, rfl, below⟩
    · obtain ⟨isDirectory, name, text, isName, accepted, spelled, readable⟩ :=
        (mem_accepted_iff rootPlain forward).mp mem
      refine ⟨isDirectory, [], name, text, List.forall_mem_nil _, isName, accepted, ?_, readable⟩
      rw [List.append_nil, spelled]
    · obtain ⟨inner, found⟩ := disk.exists_of_isDirectory below
      have plain := plain_of_entry?_ofNames rootPlain (List.append_ne_nil_of_right_ne_nil _ nonempty)
        (isName_of_mem_names_append fun other mem => (kept other mem).1) found
      obtain ⟨_, name, text, isName, accepted, spelled, readable⟩ :=
        (mem_accepted_iff rootPlain (Path.isForward_ofNames plain)).mp mem
      rw [disk.names_ofNames plain] at spelled
      exact ⟨isDirectory, front, name, text, kept, isName, accepted, spelled, readable⟩
  · rintro ⟨isDirectory, front, name, text, kept, isName, accepted, rfl, readable⟩
    by_cases first : front = []
    · subst first
      rw [List.append_nil] at readable ⊢
      exact ⟨_, (members _).mpr (.inl rfl), (mem_accepted_iff rootPlain forward).mpr
        ⟨isDirectory, name, text, isName, accepted, rfl, readable⟩⟩
    · obtain ⟨below, plain⟩ := directory_of_entry? rootPlain first
        (fun other mem => (kept other mem).1) isName (readText?_eq_some_iff.mp readable)
      refine ⟨Path.ofNames (disk.names (disk.canonical root) ++ front),
        (members _).mpr (.inr ⟨isDirectory, front, first, kept, rfl, below⟩), ?_⟩
      refine (mem_accepted_iff rootPlain (Path.isForward_ofNames plain)).mpr
        ⟨below, name, text, isName, accepted, ?_, readable⟩
      rw [disk.names_ofNames plain]

/-- Searches agree on disks that differ in the order of their listings. -/
theorem findFiles_reordered {other : Disk} (rootPlain : disk.root.isPlain) (cwd : other.cwd = disk.cwd)
    (reordered : Entry.Reordered disk.root other.root) (root : Text) :
    other.findFiles root accept excluded = disk.findFiles root accept excluded := by
  have otherPlain := reordered.isPlain rootPlain
  have same : ∀ path, path ∈ other.findFiles root accept excluded ↔
      path ∈ disk.findFiles root accept excluded := by
    intro path
    have names : ∀ path, other.names path = disk.names path := by
      intro path
      rw [Disk.names, Disk.names, cwd]
    have canonical : other.canonical root = disk.canonical root := by
      rw [Disk.canonical, Disk.canonical, cwd]
    simp only [mem_findFiles_iff rootPlain, mem_findFiles_iff otherPlain, IsFileBelow, names, canonical,
      isDirectory_reordered cwd reordered, readText?_reordered cwd reordered]
  have distinct := (disk.pairwise_findFiles rootPlain root accept excluded).imp And.right
  have otherDistinct := (other.pairwise_findFiles otherPlain root accept excluded).imp And.right
  have perm := (List.perm_ext_iff_of_nodup otherDistinct distinct).mpr same
  exact perm.eq_of_pairwise (fun _ _ _ _ => Text.le_antisymm)
    ((other.pairwise_findFiles otherPlain root accept excluded).imp And.left)
    ((disk.pairwise_findFiles rootPlain root accept excluded).imp And.left)

end Disk

namespace Project

/-- On a plain disk the documents of a project and its files of a name are, each once and in ascending
order, the files below its root that have an extension or this name and no directory of an excluded name
between them and the root. The order in which directories are listed leaves no trace. -/
theorem finds_exactly_files_below (disk : Disk) (rootPlain : disk.root.isPlain) (project : Project)
    {value : Json} (valid : Config.ofJson value = .ok project.config) :
    ((findDocuments disk project.root project.config).Pairwise fun first second =>
      Text.le first second ∧ first ≠ second) ∧
    (∀ path, path ∈ findDocuments disk project.root project.config ↔
      disk.IsFileBelow project.config.exclude (HasExtension project.config)
        (disk.canonical project.root) path) ∧
    (∀ name, ((project.findFilesNamed disk name).Pairwise fun first second =>
        Text.le first second ∧ first ≠ second) ∧
      ∀ path, path ∈ project.findFilesNamed disk name ↔
        disk.IsFileBelow project.config.exclude (· = name) (disk.canonical project.root) path) ∧
    ∀ other : Disk, other.cwd = disk.cwd → Entry.Reordered disk.root other.root →
      findDocuments other project.root project.config =
        findDocuments disk project.root project.config ∧
      ∀ name, project.findFilesNamed other name = project.findFilesNamed disk name := by
  have named : ∀ name, isDocumentName project.config name ↔ HasExtension project.config name :=
    fun _ => isDocumentName_iff (Config.isExtension_of_ofJson valid)
  refine ⟨disk.pairwise_findFiles rootPlain _ _ _, fun path => ?_, fun name => ⟨?_, fun path => ?_⟩,
    fun other cwd reordered => ⟨?_, fun name => ?_⟩⟩
  · rw [findDocuments, Disk.mem_findFiles_iff rootPlain]
    simp only [Disk.IsFileBelow, named]
  · exact disk.pairwise_findFiles rootPlain _ _ _
  · rw [findFilesNamed, Disk.mem_findFiles_iff rootPlain]
    simp only [Disk.IsFileBelow, decide_eq_true_eq]
  · exact Disk.findFiles_reordered rootPlain cwd reordered project.root
  · exact Disk.findFiles_reordered rootPlain cwd reordered project.root

/-- A document in a directory, one beside it, and the same files listed in another order. -/
theorem finds_exactly_files_below_in_another_order :
    let document : Text × Entry := ("b.ADOC", .file "")
    let skipped : Text × Entry := ("skip", .directory [("c.adoc", .file "")])
    let inner : List (Text × Entry) := [("d.adoc", .file ""), (".adoc", .file "")]
    let disk : Disk :=
      { root := .directory [("proj", .directory [document, skipped, ("a", .directory inner)])]
        cwd := "/proj"
        sound := ⟨by decide⟩ }
    let other : Disk :=
      { root := .directory [("proj", .directory [("a", .directory inner.reverse), document, skipped])]
        cwd := "/proj"
        sound := ⟨by decide⟩ }
    let value : Json := .object [(Config.excludeName, .array [.string "skip"]),
      (Config.extensionsName, .array [.string ".adoc"])]
    let project : Project := ⟨"/proj", ⟨["skip"], [".adoc"], 64⟩, none, Index.ofSources [], 0⟩
    disk.root.isPlain ∧ Config.ofJson value = .ok project.config ∧
      Entry.Reordered disk.root other.root ∧
      ("/proj/a/d.adoc" : Text) ∈ findDocuments disk project.root project.config ∧
      findDocuments other project.root project.config =
        findDocuments disk project.root project.config := by
  intro document skipped inner disk other value project
  have valid : Config.ofJson value = .ok project.config := rfl
  have innerReordered : Entry.Reordered (.directory inner) (.directory inner.reverse) :=
    .directory (.cons (.file _) (.cons (.file _) .nil)) (List.reverse_perm inner).symm
  have skippedReordered : Entry.Reordered skipped.2 skipped.2 :=
    .directory (.cons (.file _) .nil) (.refl _)
  have reordered : Entry.Reordered disk.root other.root := by
    refine .directory (.cons (.directory
      (.cons (.file _) (.cons skippedReordered (.cons innerReordered .nil))) ?_) .nil) (.refl _)
    exact List.perm_append_singleton _ [document, skipped]
  obtain ⟨_, documents, _, unordered⟩ := finds_exactly_files_below disk rfl project valid
  refine ⟨rfl, valid, reordered, (documents _).mpr ⟨by decide, ["a"], "d.adoc", [], ?_⟩,
    (unordered other rfl reordered).1⟩
  refine ⟨fun name mem => ?_, ⟨by decide, by decide, by decide, by decide⟩, ?_, by decide, by decide⟩
  · rw [List.mem_singleton.mp mem]
    exact ⟨⟨by decide, by decide, by decide, by decide⟩, by decide⟩
  · exact ⟨"d", ".adoc", ".adoc", by decide, by decide, List.mem_cons_self, rfl⟩

end Project

end Crossref

import Crossref.Proofs.Ascent
import Crossref.Proofs.Search.Exact
import Crossref.Watch

/-! What a watch ignores. A search passes over the directories with an excluded name; a watch ignores every path with
an excluded name in it, and the last of its names is that of the file itself. So a file that was found is ignored if
it has an excluded name itself, and not for another reason. -/

set_option autoImplicit false

namespace Crossref

/-- Joined names are cut apart again if no separator stands in any of them. -/
theorem Text.pieces_join {separator : Char → Bool} {mark : Char} (isSeparator : separator mark)
    {names : List Text} (nonempty : names ≠ []) (clear : ∀ name ∈ names, ∀ c ∈ name, separator c = false) :
    pieces separator (join [mark] names) = names := by
  induction names with
  | nil => exact absurd rfl nonempty
  | cons first rest ih =>
      obtain ⟨firstClear, restClear⟩ := List.forall_mem_cons.mp clear
      have alone : pieces separator first = [first] := List.splitOnP_eq_singleton firstClear
      cases rest with
      | nil => rwa [join, List.intercalate_singleton]
      | cons second others =>
          have behind := ih (List.cons_ne_nil _ _) restClear
          rw [join, List.intercalate_cons_cons, List.append_assoc, List.singleton_append, pieces,
            List.splitOnP_append_cons _ _ isSeparator]
          exact congrArg₂ (· ++ ·) alone behind

theorem Path.dropShared_append (front rest : List Text) : dropShared front (front ++ rest) = ([], rest) := by
  induction front with
  | nil => cases rest <;> rfl
  | cons first behind ih => rw [List.cons_append, dropShared, if_pos rfl, ih]

/-- A path is excluded for one of the names in it. -/
theorem isExcluded_join_iff {exclude names : List Text} (nonempty : names ≠ []) (plain : Path.Plain names) :
    isExcluded exclude (Text.join "/" names) ↔ ∃ name ∈ names, name ∈ exclude := by
  have clear : ∀ name ∈ names, ∀ c ∈ name, (c = '\\' || c = '/' : Bool) = false := by
    intro name mem c present
    obtain ⟨isName, noBackslash⟩ := plain name mem
    rw [Bool.or_eq_false_iff, decide_eq_false_iff_not, decide_eq_false_iff_not]
    exact ⟨fun same => noBackslash (same ▸ present), fun same => isName.noSlash (same ▸ present)⟩
  have cut : Text.pieces (fun c => c = '\\' || c = '/') (Text.join "/" names) = names :=
    Text.pieces_join rfl nonempty clear
  simp only [isExcluded, cut, List.any_eq_true, List.contains_iff_mem]

namespace Disk

variable {disk : Disk} {start path : Text}

theorem names_canonical (forward : Path.IsForward path) : disk.names (disk.canonical path) = disk.names path := by
  rw [disk.canonical_of_notMem forward.absolute forward.noBackslash,
    disk.names_ofNames (disk.plain_names forward.absolute forward.noBackslash)]

/-- What leads to a path from one above it are the names in between. -/
theorem relative_of_names {rest : List Text} (below : disk.names path = disk.names start ++ rest) :
    Path.relative disk.cwd start path = Text.join "/" rest := by
  have parted : Path.dropShared (disk.names start) (disk.names path) = ([], rest) := by
    rw [below, Path.dropShared_append]
  exact congrArg (fun parts : List Text × List Text =>
    Text.join "/" (parts.1.map (fun _ => (".." : Text)) ++ parts.2)) parted

variable {excluded : List Text} {named : Text → Prop}

/-- The names in front of that of a found file are not excluded, so its own name decides. -/
theorem isExcluded_of_isFileBelow (rootPlain : disk.root.isPlain) (forward : Path.IsForward start)
    (found : disk.IsFileBelow excluded named (disk.canonical start) path) :
    named (disk.name path) ∧
      (isExcluded excluded (Path.relative disk.cwd start path) ↔ disk.name path ∈ excluded) := by
  obtain ⟨_, front, name, text, kept, isName, accepted, spelled, readable⟩ := found
  rw [names_canonical forward, List.append_assoc] at spelled
  have nonempty : front ++ [name] ≠ [] := List.concat_ne_nil name front
  have areNames : ∀ other ∈ front ++ [name], Path.IsName other :=
    List.forall_mem_append.mpr ⟨fun other mem => (kept other mem).1, List.forall_mem_singleton.mpr isName⟩
  -- the path does lead to a file, so on a plain disk there is no backslash in any of its names
  have plain : Path.Plain (disk.names start ++ (front ++ [name])) :=
    plain_of_entry?_ofNames rootPlain (List.append_ne_nil_of_right_ne_nil _ nonempty)
      (isName_of_mem_names_append areNames) (readText?_eq_some_iff.mp (spelled ▸ readable))
  have leads : disk.names path = disk.names start ++ (front ++ [name]) := by
    rw [spelled, disk.names_ofNames plain]
  have own : disk.name path = name := by
    rw [spelled, ← List.append_assoc]
    exact disk.name_ofNames_concat (by rwa [List.append_assoc])
  have restPlain : Path.Plain (front ++ [name]) := fun other mem => plain other (List.mem_append_right _ mem)
  rw [own, relative_of_names leads, isExcluded_join_iff nonempty restPlain]
  refine ⟨accepted, ?_, fun excludes => ⟨name, List.mem_concat_self, excludes⟩⟩
  rintro ⟨other, mem, excludes⟩
  -- the search has not entered a directory with an excluded name
  rcases List.mem_append.mp mem with between | last
  · exact absurd excludes (kept other between).2
  · rwa [← List.mem_singleton.mp last]

end Disk

namespace Watch

/-- On a plain disk a watch ignores a document that its project has found, or a file that the project has found by
its name, if and only if the name of the file itself is excluded. -/
theorem ignores_found_file_iff_own_name_is_excluded (watch : Watch)
    (rootPlain : watch.workspace.session.disk.root.isPlain) {root : Text}
    (rooted : watch.workspace.project.root = watch.workspace.session.disk.canonical root) :
    let disk := watch.workspace.session.disk
    let project := watch.workspace.project
    (∀ path ∈ Project.findDocuments disk project.root project.config,
      (watch.ignores path ↔ disk.name path ∈ project.config.exclude)) ∧
    ∀ name, ∀ path ∈ project.findFilesNamed disk name,
      disk.name path = name ∧ (watch.ignores path ↔ name ∈ project.config.exclude) := by
  intro disk project
  have forward : Path.IsForward project.root := rooted ▸ disk.isForward_canonical root
  refine ⟨fun path found => ?_, fun name path found => ?_⟩
  · exact (Disk.isExcluded_of_isFileBelow rootPlain forward ((Disk.mem_findFiles_iff rootPlain).mp found)).2
  · obtain ⟨accepted, ignored⟩ :=
      Disk.isExcluded_of_isFileBelow rootPlain forward ((Disk.mem_findFiles_iff rootPlain).mp found)
    have own : disk.name path = name := of_decide_eq_true accepted
    exact ⟨own, own ▸ ignored⟩

/-- A document with an excluded name beside one in a directory. -/
theorem ignores_found_file_iff_own_name_is_excluded_beside_document :
    let disk : Disk :=
      { root := .directory [("proj", .directory [("a", .directory [("y.adoc", .file "")]), ("x.adoc", .file "")])]
        cwd := "/proj"
        sound := ⟨by decide⟩ }
    let project : Project := ⟨"/proj", ⟨["x.adoc"], [".adoc"], 64⟩, none, Index.ofSources [], 0⟩
    let watch : Watch := ⟨⟨project, .start disk .empty []⟩, .refresh, .start, 0, [], none, 0, false⟩
    disk.root.isPlain ∧ project.root = disk.canonical "/proj" ∧
    ("/proj/x.adoc" : Text) ∈ Project.findDocuments disk project.root project.config ∧ watch.ignores "/proj/x.adoc" ∧
    ("/proj/a/y.adoc" : Text) ∈ Project.findDocuments disk project.root project.config ∧
    ¬ watch.ignores "/proj/a/y.adoc" := by
  intro disk project watch
  have rooted : project.root = disk.canonical "/proj" := by decide +kernel
  have beside : ("/proj/x.adoc" : Text) ∈ Project.findDocuments disk project.root project.config :=
    Text.mem_sort.mpr (by decide +kernel)
  have inside : ("/proj/a/y.adoc" : Text) ∈ Project.findDocuments disk project.root project.config :=
    Text.mem_sort.mpr (by decide +kernel)
  obtain ⟨documents, _⟩ := ignores_found_file_iff_own_name_is_excluded watch rfl rooted
  refine ⟨rfl, rooted, beside, (documents _ beside).mpr (by decide +kernel), inside, fun ignored => ?_⟩
  have own : disk.name "/proj/a/y.adoc" ∉ project.config.exclude := by decide +kernel
  exact own ((documents _ inside).mp ignored)

/-- The path of a document, or of a descriptor, may be excluded although the project has found it. -/
theorem found_file_may_be_excluded :
    let disk : Disk :=
      { root := .directory [("proj", .directory [("antora.yml", .file ""), ("x.adoc", .file "")])]
        cwd := "/proj"
        sound := ⟨by decide⟩ }
    let value : Json := .object [(Config.excludeName, .array [.string "antora.yml", .string "x.adoc"])]
    let project : Project := ⟨"/proj", { Config.default with exclude := ["antora.yml", "x.adoc"] }, none,
      Index.ofSources [], 0⟩
    disk.root.isPlain ∧ Config.ofJson value = .ok project.config ∧
    ¬ (∀ path ∈ Project.findDocuments disk project.root project.config,
      isExcluded project.config.exclude (Path.relative disk.cwd project.root path) = false) ∧
    ¬ ∀ path ∈ project.findFilesNamed disk descriptorName,
      isExcluded project.config.exclude (Path.relative disk.cwd project.root path) = false := by
  intro disk value project
  have document : ("/proj/x.adoc" : Text) ∈ Project.findDocuments disk project.root project.config :=
    Text.mem_sort.mpr (by decide +kernel)
  have descriptor : ("/proj/antora.yml" : Text) ∈ project.findFilesNamed disk descriptorName :=
    Text.mem_sort.mpr (by decide +kernel)
  have excludes : ∀ path ∈ [("/proj/x.adoc" : Text), "/proj/antora.yml"],
      isExcluded project.config.exclude (Path.relative disk.cwd project.root path) = true := by decide +kernel
  refine ⟨rfl, rfl, fun covered => ?_, fun covered => ?_⟩
  · cases (excludes _ List.mem_cons_self).symm.trans (covered _ document)
  · cases (excludes _ (List.mem_cons_of_mem _ List.mem_cons_self)).symm.trans (covered _ descriptor)

end Watch

end Crossref

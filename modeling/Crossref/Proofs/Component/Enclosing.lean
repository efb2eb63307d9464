import Mathlib.Data.List.Infix
import Crossref.Proofs.Ascent
import Crossref.Proofs.Component
import Crossref.Proofs.Search.Exact

/-! The module that encloses a directory. A search that goes down from the project root and one that goes up from
a directory in a module meet at the module and at the descriptor of its component. -/

set_option autoImplicit false

namespace Crossref

namespace Disk

variable {disk : Disk} {root : Text} {front rest : List Text}

/-- The search for the closest module ends at a module that encloses its start, unless there is another one
between them. -/
theorem moduleRoot?_eq_some_iff_of_isModuleRoot (plain : Path.Plain (front ++ rest))
    (isModule : disk.isModuleRoot (Path.ofNames front))
    (outside : ∀ between, between ≠ [] → between <+: rest → Path.ofNames (front ++ between) ≠ root) :
    disk.moduleRoot? root (Path.ofNames (front ++ rest)) = some (Path.ofNames front) ↔
      ∀ between, between ≠ [] → between <+: rest → ¬ disk.isModuleRoot (Path.ofNames (front ++ between)) := by
  obtain ⟨lower, upper, split, members⟩ := ascent_ancestors.exists_split plain outside
  rw [moduleRoot?, split, List.find?_append, List.find?_cons_of_pos isModule]
  cases closer : lower.find? disk.isModuleRoot with
  | none =>
      refine iff_of_true rfl fun between nonempty starts => ?_
      exact List.find?_eq_none.mp closer _ ((members _).mpr ⟨between, nonempty, starts, rfl⟩)
  | some path =>
      obtain ⟨between, nonempty, starts, rfl⟩ := (members path).mp (List.mem_of_find?_eq_some closer)
      refine iff_of_false (fun same => nonempty ?_) fun noModule =>
        noModule between nonempty starts (List.find?_some closer)
      have names := congrArg disk.names (Option.some.inj same)
      have betweenPlain : Path.Plain (front ++ between) := fun name mem =>
        plain name (((List.prefix_append_right_inj front).mpr starts).subset mem)
      rw [disk.names_ofNames betweenPlain, disk.names_ofNames plain.of_append] at names
      exact List.append_right_eq_self.mp names

end Disk

namespace Descriptor.LiesAt

variable {disk : Disk} {front : List Text} {descriptor : Descriptor}

/-- On a plain disk the modules that a descriptor lists lie under their names. -/
theorem path_of_mem_modules (rootPlain : disk.root.isPlain) (lies : descriptor.LiesAt disk front)
    {entry : ModuleEntry} (listed : entry ∈ descriptor.modules) :
    Path.IsName entry.name ∧ '\\' ∉ entry.name ∧
      entry.path = Path.ofNames (front ++ [modulesName] ++ [entry.name]) := by
  obtain ⟨keyRun, isName, lookedUp⟩ := (lies.grounded.mem_modules_iff rootPlain).mp listed
  obtain ⟨found, _⟩ := Option.filter_eq_some_iff.mp lookedUp
  obtain ⟨modules, present, child⟩ := Option.bind_eq_some_iff.mp found
  have noBackslash : '\\' ∉ entry.name := notMem_of_all_isKeyChar keyRun (by decide)
  rw [lies.modulesDir present] at child
  exact ⟨isName, noBackslash, ((disk.child?_ofNames_name_iff lies.plainModules isName noBackslash).mp child).1⟩

end Descriptor.LiesAt

namespace Project

variable {project : Project} {disk : Disk} {descriptor : Descriptor}

/-- On a plain disk the component of a descriptor that is found lies at or below the project root. -/
theorem prefix_of_liesAt (rootPlain : disk.root.isPlain)
    (described : descriptor ∈ (project.readDescriptors disk).value) {front : List Text}
    (lies : descriptor.LiesAt disk front) : disk.names (disk.canonical project.root) <+: front := by
  rw [value_readDescriptors, List.mem_filterMap] at described
  obtain ⟨file, found, read⟩ := described
  obtain ⟨_, between, name, _, kept, isName, named, spelled, _⟩ := (Disk.mem_findFiles_iff rootPlain).mp found
  have same : Path.ofNames (front ++ [descriptorName]) =
      Path.ofNames (disk.names (disk.canonical project.root) ++ between ++ [name]) := by
    rw [← lies.file, Descriptor.file_of_read read, spelled]
  have areNames : ∀ other ∈ disk.names (disk.canonical project.root) ++ between ++ [name], Path.IsName other :=
    List.forall_mem_append.mpr ⟨Disk.isName_of_mem_names_append fun other mem => (kept other mem).1,
      List.forall_mem_singleton.mpr isName⟩
  have names := Path.eq_of_ofNames_eq (List.concat_ne_nil _ _) (List.concat_ne_nil _ _)
    (fun other mem => (lies.plainFile other mem).1) areNames same
  obtain ⟨rfl, _⟩ := List.append_inj' names rfl
  exact List.prefix_append _ _

/-- On a plain disk every module that is listed by a descriptor that is found is a module for those who go up, too,
and they find this descriptor. A search from an existing directory at or below the module ends at the module,
unless another module lies between them. -/
theorem ways_down_and_up_meet (rootPlain : disk.root.isPlain)
    (described : descriptor ∈ (project.readDescriptors disk).value) {entry : ModuleEntry}
    (listed : entry ∈ descriptor.modules) :
    disk.isModuleRoot entry.path ∧
    (Descriptor.readAnchor disk entry.path).value = some descriptor ∧
    ∀ path, disk.isDirectory path → disk.names entry.path <+: disk.names path →
      (disk.moduleRoot? project.root (disk.canonical path) = some entry.path ↔
        ∀ between, between ≠ [] → disk.names entry.path ++ between <+: disk.names path →
          ¬ disk.isModuleRoot (Path.ofNames (disk.names entry.path ++ between))) := by
  obtain ⟨front, lies⟩ := exists_liesAt described
  obtain ⟨isName, noBackslash, spelled⟩ := lies.path_of_mem_modules rootPlain listed
  have modulePlain := lies.plainModules.concat isName noBackslash
  have isModule := lies.isModuleRoot isName noBackslash
  rw [spelled, disk.names_ofNames modulePlain]
  refine ⟨isModule, lies.readAnchor isName noBackslash, fun path isDirectory below => ?_⟩
  obtain ⟨inner, found⟩ := disk.exists_of_isDirectory isDirectory
  obtain ⟨plain, canonical⟩ := Disk.canonical_of_entry? rootPlain found
  obtain ⟨rest, names⟩ := below
  rw [canonical]
  rw [← names] at plain ⊢
  have outside : ∀ between, between ≠ [] → between <+: rest →
      Path.ofNames (front ++ [modulesName] ++ [entry.name] ++ between) ≠ project.root := by
    rintro between _ ⟨further, rfl⟩ same
    rw [← List.append_assoc] at plain
    -- the component lies at or below the project root, and the module does not
    have inside := prefix_of_liesAt rootPlain described lies
    rw [← same, Disk.canonical, Path.canonical_ofNames disk.cwd plain.of_append,
      disk.names_ofNames plain.of_append] at inside
    have shorter := inside.length_le
    simp only [List.length_append, List.length_singleton] at shorter
    omega
  rw [Disk.moduleRoot?_eq_some_iff_of_isModuleRoot plain isModule outside]
  simp only [List.prefix_append_right_inj]

/-- A module which holds another component. From its pages the module is found, and from the other component's
module it is not. -/
theorem ways_down_and_up_meet_around_component :
    let disk : Disk :=
      { root := .directory [("p", .directory [("antora.yml", .file "name: c\n"),
          ("modules", .directory [("m", .directory [("antora.yml", .file "name: d\n"),
            ("modules", .directory [("n", .directory [])]),
            ("pages", .directory [("sub", .directory [])])])])])]
        cwd := "/p/modules"
        sound := ⟨by decide⟩ }
    let project : Project := ⟨"/p", .default, none, Index.ofSources [], 0⟩
    let entry : ModuleEntry := ⟨"m", "/p/modules/m"⟩
    let outer : Descriptor :=
      ⟨⟨some "c", none, none, []⟩, "/p/antora.yml", "/p", some "/p/modules", [entry]⟩
    let inner : Descriptor := ⟨⟨some "d", none, none, []⟩, "/p/modules/m/antora.yml", "/p/modules/m",
      some "/p/modules/m/modules", [⟨"n", "/p/modules/m/modules/n"⟩]⟩
    (project.readDescriptors disk).value = [outer, inner] ∧ disk.isModuleRoot entry.path ∧
    (Descriptor.readAnchor disk entry.path).value = some outer ∧
    disk.isDirectory "m/pages/./sub" ∧
    disk.moduleRoot? project.root (disk.canonical "m/pages/./sub") = some entry.path ∧
    disk.isDirectory "m/modules/n" ∧
    disk.moduleRoot? project.root (disk.canonical "m/modules/n") ≠ some entry.path := by
  intro disk project entry outer inner
  have files : project.findFilesNamed disk descriptorName =
      [("/p/antora.yml" : Text), "/p/modules/m/antora.yml"] :=
    findFilesNamed_of_ascending (by decide +kernel) (by decide +kernel)
  have read : (project.readDescriptors disk).value = [outer, inner] := by
    rw [value_readDescriptors, files]
    decide +kernel
  have described : outer ∈ (project.readDescriptors disk).value := read ▸ List.mem_cons_self
  have rootPlain : disk.root.isPlain := rfl
  have listed : entry ∈ outer.modules := List.mem_cons_self
  obtain ⟨isModule, anchor, closest⟩ := ways_down_and_up_meet rootPlain described listed
  have pages : disk.isDirectory "m/pages/./sub" := by decide +kernel
  have pagesBelow : disk.names entry.path <+: disk.names "m/pages/./sub" := by decide +kernel
  have other : disk.isDirectory "m/modules/n" := by decide +kernel
  have otherBelow : disk.names entry.path <+: disk.names "m/modules/n" := by decide +kernel
  refine ⟨read, isModule, anchor, pages, (closest _ pages pagesBelow).mpr fun between nonempty starts => ?_, other,
    fun found => ?_⟩
  · have noModule : ∀ between ∈ List.inits ["pages".toList, "sub".toList], between ≠ [] →
        ¬ disk.isModuleRoot (Path.ofNames (disk.names entry.path ++ between)) := by
      decide +kernel
    have names : disk.names "m/pages/./sub" = disk.names entry.path ++ ["pages".toList, "sub".toList] := by
      decide +kernel
    rw [names, List.prefix_append_right_inj] at starts
    exact noModule between ((List.mem_inits _ _).mpr starts) nonempty
  · have nearer : disk.isModuleRoot
        (Path.ofNames (disk.names entry.path ++ ["modules".toList, "n".toList])) := by
      decide +kernel
    have inside : disk.names entry.path ++ ["modules".toList, "n".toList] <+: disk.names "m/modules/n" := by
      decide +kernel
    exact (closest _ other otherBelow).mp found _ (List.cons_ne_nil _ _) inside nearer

end Project

end Crossref

import Crossref.Proofs.Address.Listing

/-! Components without a name. The listing takes the lack of a name for a name that they share, so it gives them one
another's titles and addresses them without a component. The resolution of keys does not: a key leads to a component
by its name only. -/

set_option autoImplicit false

namespace Crossref.Project

variable {project : Project} {disk : Disk} {moduleDir : Text} {anchor : Descriptor}

/-- Where the anchor has no name, a key without a component addresses nothing. -/
theorem targetModules_of_unnamed (found : (Descriptor.readAnchor disk moduleDir).value = some anchor)
    (unnamed : anchor.name = none) {key : Key} (noComponent : key.component = none) :
    (project.targetModules disk moduleDir key).value = [] := by
  have noTarget : (Target.ofKey ⟨anchor.name, disk.name moduleDir, anchor.version⟩ key).component.isNone := by
    rw [Target.ofKey, noComponent, unnamed]
    rfl
  rw [project.value_targetModules_eq_ite disk moduleDir found rfl, if_pos noTarget]

/-- A key leads to directories in components with a name. -/
theorem exists_named_of_mem_targetModules {key : Key} {path : Text}
    (mem : path ∈ (project.targetModules disk moduleDir key).value) :
    ∃ descriptor ∈ (project.readDescriptors disk).value, descriptor.name.isSome ∧
      ∃ modules name, descriptor.modulesDir = some modules ∧ disk.child? modules name = some path := by
  obtain ⟨_, target, _, _, named, descriptor, described, lookedUp⟩ :=
    (project.mem_targetModules_iff disk moduleDir).mp mem
  obtain ⟨⟨sameName, _⟩, modules, present, child, _⟩ := Target.moduleDirIn?_eq_some_iff.mp lookedUp
  exact ⟨descriptor, described, sameName ▸ named, modules, target.moduleName, present, child⟩

/-- Components without a name are listed as if they were one. Seen from a module of such a component, the modules of
all of them are listed by their names alone, and a title that one of them lacks is that of the first of the others
that has one. But no key without a component leads anywhere from there, and no key ever leads to one of them. -/
theorem unnamed_components_are_listed_as_one_and_never_addressed
    (found : (Descriptor.readAnchor disk moduleDir).value = some anchor) :
    let descriptors := (project.readDescriptors disk).value
    let sorted := Descriptor.sortByProximity descriptors moduleDir
    let listed := (project.moduleAddresses disk moduleDir).value
    (anchor.name = none →
      (∀ descriptor ∈ descriptors, descriptor.name = none → ∀ entry ∈ descriptor.modules,
        ∃ mark, ModuleAddress.Marks anchor descriptor mark ∧
          mark ++ (entry.name ++ ":") ∈ listed.map (·.text)) ∧
      ∀ key : Key, key.component = none → (project.targetModules disk moduleDir key).value = []) ∧
    (∀ address ∈ listed, address.componentName = none → ∃ descriptor entry,
      ModuleAddress.IsFirst anchor sorted address.text descriptor entry ∧ descriptor.name = none ∧
      address.title = descriptor.title.orElse fun _ =>
        (sorted.find? fun other => other.name = none && other.title.isSome).bind (·.title)) ∧
    ∀ (key : Key), ∀ path ∈ (project.targetModules disk moduleDir key).value,
      ∃ descriptor ∈ descriptors, descriptor.name.isSome ∧
        ∃ modules name, descriptor.modulesDir = some modules ∧ disk.child? modules name = some path := by
  rw [value_moduleAddresses found]
  intro descriptors sorted listed
  refine ⟨fun unnamed => ⟨fun descriptor described lacksName entry has => ?_, fun key noComponent => ?_⟩,
    fun address mem lacksName => ?_, fun key path mem => exists_named_of_mem_targetModules mem⟩
  · have marks : ModuleAddress.Marks anchor descriptor (ModuleAddress.versionMark anchor descriptor) :=
      ModuleAddress.marks_iff.mpr rfl
    exact ⟨_, marks, ModuleAddress.mem_map_text_ofDescriptors (Descriptor.mem_sortByProximity.mpr described) has
      (.within marks (lacksName.trans unnamed.symm))⟩
  · exact targetModules_of_unnamed found unnamed noComponent
  · obtain ⟨descriptor, entry, isFirst, fields⟩ := ModuleAddress.mem_ofDescriptors_iff.mp mem
    have noName : descriptor.name = none := by
      rw [← lacksName, fields]
    refine ⟨descriptor, entry, isFirst, noName, ?_⟩
    rw [fields, ModuleAddress.componentTitle?_eq, noName]

/-- Two components without a name: the second is listed beside the first, and no key leads to it. -/
theorem unnamed_components_are_listed_as_one_and_never_addressed_beside_titled :
    let component (content : Text) (modules : List (Text × Entry)) : Entry :=
      .directory [("antora.yml", .file content), ("modules", .directory modules)]
    let disk : Disk :=
      { root := .directory [("p", .directory [("a", component "" [("m", .directory [])]),
          ("b", component "title: T\n" [("n", .directory [])])])]
        cwd := "/p"
        sound := ⟨by decide⟩ }
    let project : Project := ⟨"/p", .default, none, Index.ofSources [], 0⟩
    let anchor : Descriptor := ⟨⟨none, none, none, []⟩, "/p/a/antora.yml", "/p/a",
      some "/p/a/modules", [⟨"m", "/p/a/modules/m"⟩]⟩
    (Descriptor.readAnchor disk "/p/a/modules/m").value = some anchor ∧ anchor.name = none ∧
    ("n:" : Text) ∈ ((project.moduleAddresses disk "/p/a/modules/m").value).map (·.text) ∧
    (project.targetModules disk "/p/a/modules/m" ⟨none, none, some "n", none, []⟩).value = [] := by
  intro component disk project anchor
  let other : Descriptor := ⟨⟨none, none, some "T", []⟩, "/p/b/antora.yml", "/p/b",
    some "/p/b/modules", [⟨"n", "/p/b/modules/n"⟩]⟩
  have found : (Descriptor.readAnchor disk "/p/a/modules/m").value = some anchor := by decide +kernel
  have files : project.findFilesNamed disk descriptorName =
      [("/p/a/antora.yml" : Text), "/p/b/antora.yml"] :=
    findFilesNamed_of_ascending (by decide +kernel) (by decide +kernel)
  have described : other ∈ (project.readDescriptors disk).value := by
    rw [value_readDescriptors, files]
    decide +kernel
  obtain ⟨beside, _, _⟩ := @unnamed_components_are_listed_as_one_and_never_addressed project disk _ _ found
  obtain ⟨lists, leadsNowhere⟩ := beside rfl
  obtain ⟨mark, marks, listed⟩ := lists other described rfl _ List.mem_cons_self
  rw [ModuleAddress.marks_iff.mp marks] at listed
  exact ⟨found, rfl, listed, leadsNowhere _ rfl⟩

/-- A component without a name lists a module of another one as its own, and with the title of that one a module of
its own. -/
theorem unnamed_components_share_addresses_and_titles :
    let component (content : Text) (modules : List (Text × Entry)) : Entry :=
      .directory [("antora.yml", .file content), ("modules", .directory modules)]
    let disk : Disk :=
      { root := .directory [("p", .directory [("a", component "" [("m", .directory [])]),
          ("b", component "title: T\n" [("n", .directory [])])])]
        cwd := "/p"
        sound := ⟨by decide⟩ }
    let project : Project := ⟨"/p", .default, none, Index.ofSources [], 0⟩
    let anchor : Descriptor := ⟨⟨none, none, none, []⟩, "/p/a/antora.yml", "/p/a",
      some "/p/a/modules", [⟨"m", "/p/a/modules/m"⟩]⟩
    let other : Descriptor := ⟨⟨none, none, some "T", []⟩, "/p/b/antora.yml", "/p/b",
      some "/p/b/modules", [⟨"n", "/p/b/modules/n"⟩]⟩
    let listed := (project.moduleAddresses disk "/p/a/modules/m").value
    (Descriptor.readAnchor disk "/p/a/modules/m").value = some anchor ∧
    (project.readDescriptors disk).value = [anchor, other] ∧
    ¬ (∀ entry ∈ other.modules, ∀ mark, ModuleAddress.Marks anchor other mark →
      mark ++ (entry.name ++ ":") ∉ listed.map (·.text)) ∧
    ¬ ∀ address ∈ listed, ∀ entry ∈ anchor.modules, address.moduleDir = entry.path →
      address.title = anchor.title := by
  intro component disk project anchor other listed
  have found : (Descriptor.readAnchor disk "/p/a/modules/m").value = some anchor := by decide +kernel
  have files : project.findFilesNamed disk descriptorName =
      [("/p/a/antora.yml" : Text), "/p/b/antora.yml"] :=
    findFilesNamed_of_ascending (by decide +kernel) (by decide +kernel)
  have descriptors : (project.readDescriptors disk).value = [anchor, other] := by
    rw [value_readDescriptors, files]
    decide +kernel
  have sorted : Descriptor.sortByProximity [anchor, other] "/p/a/modules/m" = [anchor, other] :=
    Descriptor.sortByProximity_of_descending (by decide +kernel)
  have lists : listed = [⟨"m:", none, "m", some "T", "/p/a/modules/m"⟩,
      ⟨":m:", none, "m", some "T", "/p/a/modules/m"⟩,
      ⟨"n:", none, "n", some "T", "/p/b/modules/n"⟩, ⟨":n:", none, "n", some "T", "/p/b/modules/n"⟩] := by
    show (project.moduleAddresses disk "/p/a/modules/m").value = _
    rw [value_moduleAddresses found, descriptors, sorted]
    decide +kernel
  rw [lists]
  -- the third address is in the way of the first statement, the title of the first one in that of the second
  refine ⟨found, descriptors, fun apart => ?_, fun own => ?_⟩
  · exact apart _ List.mem_cons_self _ (.inl ⟨rfl, rfl⟩) (by decide)
  · cases own _ List.mem_cons_self _ List.mem_cons_self rfl

end Crossref.Project

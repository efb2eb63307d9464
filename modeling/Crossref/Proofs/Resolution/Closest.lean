import Crossref.Proofs.Proximity
import Crossref.Proofs.Resolution.Target

/-! What a key means that names no module. It means the module that it is read in, and only copies of
the component that are nested in the component itself can be closer. -/

set_option autoImplicit false

namespace Crossref

namespace Descriptor

variable {disk : Disk} {front : List Text} {descriptor : Descriptor} {entry : ModuleEntry}

/-- A module whose directory has the name of the module. The directory of a module that is listed has
another name if the name on the disk holds a backslash. -/
def HoldsDirectly (descriptor : Descriptor) (entry : ModuleEntry) : Prop :=
  entry ∈ descriptor.modules ∧
    ∃ modules, descriptor.modulesDir = some modules ∧ entry.path = modules ++ '/' :: entry.name

/-- Another component with the same name and version, nested in the component and ahead of it as seen
from a path. -/
structure IsCloserCopy (disk : Disk) (path : Text) (copy original : Descriptor) : Prop where
  name : copy.name = original.name
  version : copy.version = original.version
  nested : copy.IsNestedIn disk original
  ahead : Ahead path copy original

/-- A module that a component holds directly lies under its name and is looked up there. -/
theorem LiesAt.of_holdsDirectly (lies : descriptor.LiesAt disk front)
    (held : descriptor.HoldsDirectly entry) :
    (Path.IsName entry.name ∧ '\\' ∉ entry.name) ∧ disk.name entry.path = entry.name ∧
      entry.path = Path.ofNames (front ++ [modulesName] ++ [entry.name]) ∧
      Target.moduleDirIn? ⟨descriptor.name, entry.name, descriptor.version⟩ disk descriptor =
        some entry.path := by
  obtain ⟨listed, modules, present, direct⟩ := held
  rw [lies.grounded.modules, present, Option.map_some, Option.getD_some, mem_listModules] at listed
  obtain ⟨⟨child, isDirectory, keyRun⟩, named⟩ := listed
  rw [named] at keyRun
  have here := lies.modulesDir present
  subst here
  obtain ⟨entries, listing, ⟨onDisk, inner⟩, mem, joined⟩ := disk.mem_children.mp child
  have onDiskName := (disk.isName_of_list? listing mem).1
  have spelled : entry.path =
      Path.ofNames (front ++ [modulesName]) ++ '/' :: Path.toForwardSlashes onDisk := by
    rw [joined, Disk.canonical, Path.canonical_ofNames disk.cwd lies.plainModules, Path.joinParts,
      Path.join_child rfl onDiskName, Path.resolveDots_components_ofNames lies.plainModules,
      Path.ofNames_concat (List.concat_ne_nil _ _), Path.toForwardSlashes_append,
      Path.toForwardSlashes_of_notMem (Path.notMem_ofNames lies.plainModules)]
    rfl
  have sameName : entry.name = Path.toForwardSlashes onDisk :=
    (List.cons.inj (List.append_cancel_left (direct.symm.trans spelled))).2
  -- a backslash on the disk would be a slash in the name, which no key can spell
  have noBackslash : '\\' ∉ onDisk := by
    intro backslash
    have slash : '/' ∈ entry.name := sameName ▸ List.mem_map.mpr ⟨'\\', backslash, rfl⟩
    exact notMem_of_all_isKeyChar keyRun (by decide) slash
  rw [Path.toForwardSlashes_of_notMem noBackslash] at sameName
  subst sameName
  have path : entry.path = Path.ofNames (front ++ [modulesName] ++ [entry.name]) :=
    direct.trans (Path.ofNames_concat (List.concat_ne_nil _ _) _).symm
  have found : disk.child? (Path.ofNames (front ++ [modulesName])) entry.name = some entry.path :=
    (disk.child?_ofNames_name_iff lies.plainModules onDiskName noBackslash).mpr
      ⟨path, disk.exists?_of_isDirectory isDirectory⟩
  exact ⟨⟨onDiskName, noBackslash⟩, named, path,
    Target.moduleDirIn?_eq_some_iff.mpr ⟨⟨rfl, rfl⟩, _, present, found, isDirectory⟩⟩

end Descriptor

namespace Project

variable {project : Project} {disk : Disk} {descriptor : Descriptor} {entry : ModuleEntry}

/-- What is sorted before the descriptor of a component, as seen from a path in the component, and
describes the same version of it, is a closer copy. -/
theorem isCloserCopy_of_mem_before {front names : List Text} (lies : descriptor.LiesAt disk front)
    (within : names ≠ []) {before after : List Descriptor}
    (split : Descriptor.sortByProximity (project.readDescriptors disk).value
      (Path.ofNames (front ++ names)) = before ++ descriptor :: after)
    (first : descriptor ∉ before) {copy : Descriptor} (isBefore : copy ∈ before)
    (name : copy.name = descriptor.name) (version : copy.version = descriptor.version) :
    copy ∈ (project.readDescriptors disk).value ∧
      copy.IsCloserCopy disk (Path.ofNames (front ++ names)) descriptor := by
  have described : copy ∈ (project.readDescriptors disk).value :=
    Descriptor.mem_sortByProximity.mp (split ▸ List.mem_append_left _ isBefore)
  have sorted := Descriptor.pairwise_sortByProximity (project.pairwise_readDescriptors disk)
    (Path.ofNames (front ++ names))
  rw [split] at sorted
  have ahead := (List.pairwise_append.mp sorted).2.2 copy isBefore descriptor List.mem_cons_self
  obtain ⟨copyFront, copyLies⟩ := exists_liesAt described
  rcases lies.eq_or_isNestedIn copyLies within ahead.proximity_le with rfl | nested
  · exact absurd isBefore first
  · exact ⟨described, name, version, nested, ahead⟩

/-- A key that names no version, component or module means the module that it is read in. Only modules
of the same name in closer copies of the component come before it. -/
theorem unqualified_key_means_anchor_module
    (described : descriptor ∈ (project.readDescriptors disk).value) (named : descriptor.name.isSome)
    (held : descriptor.HoldsDirectly entry) {key : Key} (noVersion : key.version = none)
    (noComponent : key.component = none) (noModule : key.moduleName = none) :
    (∃ closer rest,
      (project.targetModules disk entry.path key).value = closer ++ entry.path :: rest ∧
      ∀ path ∈ closer, ∃ copy ∈ (project.readDescriptors disk).value,
        copy.IsCloserCopy disk entry.path descriptor ∧
        Target.moduleDirIn? ⟨descriptor.name, entry.name, descriptor.version⟩ disk copy = some path) ∧
    ((∀ copy ∈ (project.readDescriptors disk).value, ¬ copy.IsCloserCopy disk entry.path descriptor) →
      (project.targetModules disk entry.path key).value.head? = some entry.path) := by
  obtain ⟨front, lies⟩ := exists_liesAt described
  obtain ⟨⟨isName, noBackslash⟩, anchorName, spelled, lookedUp⟩ := lies.of_holdsDirectly held
  have read : (Descriptor.readAnchor disk entry.path).value = some descriptor :=
    spelled ▸ lies.readAnchor isName noBackslash
  let target : Target := ⟨descriptor.name, entry.name, descriptor.version⟩
  have completed :
      Target.ofKey ⟨descriptor.name, disk.name entry.path, descriptor.version⟩ key = target := by
    simp [target, Target.ofKey, noVersion, noComponent, noModule, anchorName, isName.nonempty]
  obtain ⟨before, after, split, first⟩ := List.eq_append_cons_of_mem
    (Descriptor.mem_sortByProximity.mpr described :
      descriptor ∈ Descriptor.sortByProximity (project.readDescriptors disk).value entry.path)
  have value : (project.targetModules disk entry.path key).value =
      before.filterMap (target.moduleDirIn? disk) ++
        entry.path :: after.filterMap (target.moduleDirIn? disk) := by
    rw [project.value_targetModules disk entry.path read completed named, split,
      List.filterMap_append, List.filterMap_cons_some lookedUp]
  have copies : ∀ path ∈ before.filterMap (target.moduleDirIn? disk),
      ∃ copy ∈ (project.readDescriptors disk).value, copy.IsCloserCopy disk entry.path descriptor ∧
        target.moduleDirIn? disk copy = some path := by
    intro path mem
    obtain ⟨copy, isBefore, found⟩ := List.mem_filterMap.mp mem
    obtain ⟨⟨name, version⟩, _⟩ := Target.moduleDirIn?_eq_some_iff.mp found
    rw [spelled, List.append_assoc] at split ⊢
    obtain ⟨copyDescribed, closerCopy⟩ :=
      isCloserCopy_of_mem_before lies (List.cons_ne_nil _ _) split first isBefore name version
    exact ⟨copy, copyDescribed, closerCopy, found⟩
  refine ⟨⟨_, _, value, copies⟩, fun noCopy => ?_⟩
  cases closer : before.filterMap (target.moduleDirIn? disk) with
  | nil =>
      rw [value, closer]
      rfl
  | cons path others =>
      obtain ⟨copy, copyDescribed, closerCopy, _⟩ := copies path (closer ▸ List.mem_cons_self)
      exact absurd closerCopy (noCopy copy copyDescribed)

/-- A module of a component beside which a copy of the component lies. -/
theorem unqualified_key_means_anchor_module_beside_copy :
    let component : Entry := .directory [("antora.yml", .file "name: c\n"),
      ("modules", .directory [("m", .directory [])])]
    let disk : Disk :=
      { root := .directory [("proj", .directory [("docs-copy", component), ("docs", component)])]
        cwd := "/proj"
        sound := ⟨by decide⟩ }
    let project : Project := ⟨"/proj", .default, none, Index.ofSources [], 0⟩
    let content : DescriptorContent := ⟨some "c", none, none, []⟩
    let copy : Descriptor := ⟨content, "/proj/docs-copy/antora.yml", "/proj/docs-copy",
      some "/proj/docs-copy/modules", [⟨"m", "/proj/docs-copy/modules/m"⟩]⟩
    let descriptor : Descriptor := ⟨content, "/proj/docs/antora.yml", "/proj/docs",
      some "/proj/docs/modules", [⟨"m", "/proj/docs/modules/m"⟩]⟩
    (project.readDescriptors disk).value = [copy, descriptor] ∧
    (project.targetModules disk "/proj/docs/modules/m" (Key.ofText "image$a.png")).value.head? =
      some "/proj/docs/modules/m".toList := by
  intro component disk project content copy descriptor
  have files : project.findFilesNamed disk descriptorName =
      [("/proj/docs-copy/antora.yml" : Text), "/proj/docs/antora.yml"] :=
    findFilesNamed_of_ascending (by decide +kernel) (by decide +kernel)
  have read : (project.readDescriptors disk).value = [copy, descriptor] := by
    rw [value_readDescriptors, files]
    decide +kernel
  have described : descriptor ∈ (project.readDescriptors disk).value := by
    rw [read]
    exact List.mem_cons_of_mem _ List.mem_cons_self
  have held : descriptor.HoldsDirectly ⟨"m", "/proj/docs/modules/m"⟩ :=
    ⟨by decide, "/proj/docs/modules", rfl, by decide⟩
  have flat : ∀ other ∈ (project.readDescriptors disk).value,
      (disk.names other.componentDir).length ≤ (disk.names descriptor.componentDir).length := by
    rw [read]
    decide +kernel
  obtain ⟨_, first⟩ := unqualified_key_means_anchor_module described rfl held
    (by decide : (Key.ofText "image$a.png").version = none) (by decide) (by decide)
  refine ⟨read, first fun other otherDescribed closerCopy => ?_⟩
  obtain ⟨names, nonempty, below⟩ := closerCopy.nested
  have shorter := flat other otherDescribed
  rw [below, List.length_append] at shorter
  have longer := List.length_pos_iff.mpr nonempty
  omega

/-- A copy of a component may be nested in it and come first, and a module whose directory has a
backslash in its name is not looked up by that name. -/
theorem anchor_module_may_not_come_first :
    let descriptor : Text × Entry := ("antora.yml", .file "name: c\n")
    let modules (name : Text) : Text × Entry := ("modules", .directory [(name, .directory [])])
    let component : List (Text × Entry) := [descriptor, modules "m"]
    let nested : Disk :=
      { root := .directory [("proj", .directory (("1", .directory component) :: component))]
        cwd := "/proj"
        sound := ⟨by decide⟩ }
    let backslash : Disk :=
      { root := .directory [("proj", .directory [descriptor, modules "..\\x", ("x", .directory [])])]
        cwd := "/proj"
        sound := ⟨by decide⟩ }
    let project : Project := ⟨"/proj", .default, none, Index.ofSources [], 0⟩
    ¬ (∀ descriptor ∈ (project.readDescriptors nested).value, descriptor.name.isSome →
      ∀ entry ∈ descriptor.modules,
        (project.targetModules nested entry.path (Key.ofText [])).value.head? = some entry.path) ∧
    ¬ ∀ descriptor ∈ (project.readDescriptors backslash).value, descriptor.name.isSome →
      ∀ entry ∈ descriptor.modules,
        (project.targetModules backslash entry.path (Key.ofText [])).value.head? =
          some entry.path := by
  intro descriptor modules component nested backslash project
  constructor
  · let content : DescriptorContent := ⟨some "c", none, none, []⟩
    let copy : Descriptor := ⟨content, "/proj/1/antora.yml", "/proj/1", some "/proj/1/modules",
      [⟨"m", "/proj/1/modules/m"⟩]⟩
    let outer : Descriptor := ⟨content, "/proj/antora.yml", "/proj", some "/proj/modules",
      [⟨"m", "/proj/modules/m"⟩]⟩
    have files : project.findFilesNamed nested descriptorName =
        [("/proj/1/antora.yml" : Text), "/proj/antora.yml"] :=
      findFilesNamed_of_ascending (by decide +kernel) (by decide +kernel)
    have read : (project.readDescriptors nested).value = [copy, outer] := by
      rw [value_readDescriptors, files]
      decide +kernel
    have anchored : (Descriptor.readAnchor nested "/proj/modules/m").value = some outer := by
      decide +kernel
    have sorted : Descriptor.sortByProximity [copy, outer] "/proj/modules/m" = [copy, outer] := by
      rw [Descriptor.sortByProximity_eq_mergeSort]
      exact List.mergeSort_of_pairwise (by decide +kernel)
    have value : (project.targetModules nested "/proj/modules/m" (Key.ofText [])).value =
        [("/proj/1/modules/m" : Text), "/proj/modules/m"] := by
      rw [project.value_targetModules nested _ anchored rfl rfl, read, sorted]
      decide +kernel
    intro first
    have same := first outer (by rw [read]; exact List.mem_cons_of_mem _ List.mem_cons_self) rfl
      ⟨"m", "/proj/modules/m"⟩ List.mem_cons_self
    rw [value] at same
    exact absurd same (by decide)
  · decide +kernel

end Project

end Crossref

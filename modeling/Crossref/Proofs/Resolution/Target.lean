import Crossref.Proofs.Component
import Crossref.Proofs.Resolution.Qualified

/-! What keys can address. A target's module is looked up in the directory for modules of each component
with the name and the version of the target. Names lead to modules there; dots lead out. -/

set_option autoImplicit false

namespace Crossref

namespace Target

/-- The module of a target is the root module, the one that the key spells, or that of the anchor. -/
theorem moduleName_ofKey (anchor : Target) (key : Key) :
    (ofKey anchor key).moduleName = rootModuleName ∨ (ofKey anchor key).moduleName ≠ [] ∧
      (key.moduleName = some (ofKey anchor key).moduleName ∨
        (ofKey anchor key).moduleName = anchor.moduleName) := by
  obtain ⟨version, component, moduleName, family, remainder⟩ := key
  have filled : ∀ name : Text, (if name.isEmpty then rootModuleName else name) = rootModuleName ∨
      name ≠ [] ∧ (if name.isEmpty then rootModuleName else name) = name := by
    intro name
    cases name with
    | nil => exact .inl rfl
    | cons c rest => exact .inr ⟨List.cons_ne_nil _ _, rfl⟩
  cases moduleName with
  | some name =>
      refine (filled name).imp_right fun ⟨nonempty, same⟩ => ?_
      exact ⟨same.trans_ne nonempty, .inl (congrArg some same.symm)⟩
  | none =>
      cases component with
      | none =>
          refine (filled anchor.moduleName).imp_right fun ⟨nonempty, same⟩ => ?_
          exact ⟨same.trans_ne nonempty, .inr same⟩
      | some name => exact .inl rfl

theorem moduleName_ofKey_ne_nil (anchor : Target) (key : Key) : (ofKey anchor key).moduleName ≠ [] := by
  rcases moduleName_ofKey anchor key with root | ⟨nonempty, _⟩
  · exact root.trans_ne (by decide)
  · exact nonempty

/-- What no key can spell is in the module name of a target only if the anchor has it. -/
theorem notMem_moduleName_ofKey {anchor : Target} {key : Key} {c : Char}
    (keyRun : ∀ run ∈ key.moduleName, run.all isKeyChar) (other : isKeyChar c = false)
    (absent : c ∉ anchor.moduleName) : c ∉ (ofKey anchor key).moduleName := by
  rcases moduleName_ofKey anchor key with root | ⟨_, spelled | anchored⟩
  · rw [root]
    exact notMem_of_all_isKeyChar (by decide) other
  · exact notMem_of_all_isKeyChar (keyRun _ spelled) other
  · rw [anchored]
    exact absent

theorem moduleDirIn?_eq_some_iff {target : Target} {disk : Disk} {descriptor : Descriptor}
    {found : Text} :
    target.moduleDirIn? disk descriptor = some found ↔
      (descriptor.name = target.component ∧ descriptor.version = target.version) ∧
        ∃ modules, descriptor.modulesDir = some modules ∧
          disk.child? modules target.moduleName = some found ∧ disk.isDirectory found := by
  rw [moduleDirIn?]
  split
  · next matched =>
      simp only [Bool.and_eq_true, decide_eq_true_eq] at matched
      rw [Option.filter_eq_some_iff, Option.bind_eq_some_iff]
      constructor
      · rintro ⟨⟨modules, present, lookedUp⟩, isDirectory⟩
        exact ⟨matched, modules, present, lookedUp, isDirectory⟩
      · rintro ⟨_, modules, present, lookedUp, isDirectory⟩
        exact ⟨⟨modules, present, lookedUp⟩, isDirectory⟩
  · next different =>
      simp only [Bool.and_eq_true, decide_eq_true_eq] at different
      constructor
      · intro found
        cases found
      · rintro ⟨matched, _⟩
        exact absurd matched different

end Target

namespace Descriptor

/-- What the name of a module leads to in a component. A name that is no dots leads to a module under
this name; dots lead to the directory of all modules and to the directory of the component. -/
inductive LeadsTo (disk : Disk) (descriptor : Descriptor) (modules : Text) : Text → Text → Prop
  | module {name found : Text} : name ≠ "." → name ≠ ".." → found = modules ++ '/' :: name →
      found ∈ disk.children modules → disk.isModuleRoot found →
      LeadsTo disk descriptor modules name found
  | dot : LeadsTo disk descriptor modules "." modules
  | dots : LeadsTo disk descriptor modules ".." descriptor.componentDir

variable {disk : Disk} {front : List Text} {descriptor : Descriptor} {modules name found : Text}

theorem LiesAt.child?_modulesDir_iff (lies : descriptor.LiesAt disk front)
    (present : descriptor.modulesDir = some modules) (nonempty : name ≠ []) (noSlash : '/' ∉ name)
    (noBackslash : '\\' ∉ name) :
    disk.child? modules name = some found ↔
      disk.exists? found ∧ descriptor.LeadsTo disk modules name found := by
  rw [lies.modulesDir present,
    disk.child?_ofNames_iff lies.plainModules nonempty noSlash noBackslash, and_comm]
  refine and_congr_right fun isThere => ?_
  constructor
  · rintro rfl
    by_cases dot : name = "."
    · subst dot
      rw [Path.follow_of_stays (.inr rfl), List.reverse_reverse]
      exact .dot
    · by_cases dots : name = ".."
      · subst dots
        rw [Path.reverse_follow_dots, ← lies.componentDir]
        exact .dots
      · have isName : Path.IsName name := ⟨nonempty, dot, dots, noSlash⟩
        rw [Path.reverse_follow_of_isName isName] at isThere ⊢
        obtain ⟨entry, reached⟩ := Option.isSome_iff_exists.mp isThere
        have child := disk.mem_children_ofNames (List.concat_ne_nil _ _)
          (lies.plainModules.concat isName noBackslash) reached
        exact .module dot dots (Path.ofNames_concat (List.concat_ne_nil _ _) name) child
          (lies.isModuleRoot isName noBackslash)
  · intro leads
    cases leads with
    | dot => rw [Path.follow_of_stays (.inr rfl), List.reverse_reverse]
    | dots => rw [Path.reverse_follow_dots, ← lies.componentDir]
    | module noDot noDots spelled _ _ =>
        rw [Path.reverse_follow_of_isName ⟨nonempty, noDot, noDots, noSlash⟩,
          Path.ofNames_concat (List.concat_ne_nil _ _)]
        exact spelled

end Descriptor

namespace Project

variable (project : Project) (disk : Disk) (anchorDir : Text)

/-- The directories that a key names are looked up, in the order of proximity, for the target that the
anchor completes. -/
theorem value_targetModules_eq_ite {anchor : Descriptor} {target : Target} {key : Key}
    (found : (Descriptor.readAnchor disk anchorDir).value = some anchor)
    (completed : Target.ofKey ⟨anchor.name, disk.name anchorDir, anchor.version⟩ key = target) :
    (project.targetModules disk anchorDir key).value =
      if target.component.isNone then []
      else (Descriptor.sortByProximity (project.readDescriptors disk).value anchorDir).filterMap
        (target.moduleDirIn? disk) := by
  simp only [targetModules, Noted.value_bind, found, completed]
  split <;> rfl

theorem value_targetModules {anchor : Descriptor} {target : Target} {key : Key}
    (found : (Descriptor.readAnchor disk anchorDir).value = some anchor)
    (completed : Target.ofKey ⟨anchor.name, disk.name anchorDir, anchor.version⟩ key = target)
    (named : target.component.isSome) :
    (project.targetModules disk anchorDir key).value =
      (Descriptor.sortByProximity (project.readDescriptors disk).value anchorDir).filterMap
        (target.moduleDirIn? disk) := by
  have unnamed : ¬ target.component.isNone := by
    simpa [← Option.isSome_iff_ne_none] using named
  rw [project.value_targetModules_eq_ite disk anchorDir found completed, if_neg unnamed]

theorem mem_targetModules_iff {key : Key} {found : Text} :
    found ∈ (project.targetModules disk anchorDir key).value ↔
      ∃ anchor target, (Descriptor.readAnchor disk anchorDir).value = some anchor ∧
        Target.ofKey ⟨anchor.name, disk.name anchorDir, anchor.version⟩ key = target ∧
        target.component.isSome ∧ ∃ descriptor ∈ (project.readDescriptors disk).value,
          target.moduleDirIn? disk descriptor = some found := by
  constructor
  · intro mem
    cases read : (Descriptor.readAnchor disk anchorDir).value with
    | none =>
        simp only [targetModules, Noted.value_bind, read, Noted.value_pure] at mem
        cases mem
    | some anchor =>
        refine ⟨anchor, _, rfl, rfl, ?_⟩
        rw [project.value_targetModules_eq_ite disk anchorDir read rfl] at mem
        split at mem
        · cases mem
        · next named =>
            obtain ⟨descriptor, sorted, lookedUp⟩ := List.mem_filterMap.mp mem
            refine ⟨?_, descriptor, Descriptor.mem_sortByProximity.mp sorted, lookedUp⟩
            exact Option.isSome_iff_ne_none.mpr fun none => named (Option.isNone_iff_eq_none.mpr none)
  · rintro ⟨anchor, target, read, completed, named, descriptor, described, lookedUp⟩
    rw [project.value_targetModules disk anchorDir read completed named]
    exact List.mem_filterMap.mpr
      ⟨descriptor, Descriptor.mem_sortByProximity.mpr described, lookedUp⟩

/-- A text addresses the directories to which the module name of its target leads in the components with
the name and the version of the target. They are modules unless this name is one of dots. -/
theorem mem_resolveAddress_iff_leadsTo (text found : Text) :
    project.resolveAddress disk anchorDir text =
      project.targetModules disk anchorDir (Key.ofText text) ∧
    (found ∈ (project.targetModules disk anchorDir (Key.ofText text)).value ↔
      ∃ anchor target, (Descriptor.readAnchor disk anchorDir).value = some anchor ∧
        Target.ofKey ⟨anchor.name, disk.name anchorDir, anchor.version⟩ (Key.ofText text) = target ∧
        target.component.isSome ∧ ∃ descriptor ∈ (project.readDescriptors disk).value,
          (descriptor.name = target.component ∧ descriptor.version = target.version) ∧
          ∃ modules, descriptor.modulesDir = some modules ∧ disk.isDirectory found ∧
            descriptor.LeadsTo disk modules target.moduleName found) := by
  refine ⟨project.targetModules_congr fun _ _ => rfl, ?_⟩
  rw [mem_targetModules_iff]
  refine exists_congr fun anchor => exists_congr fun target => ?_
  refine and_congr_right fun read => and_congr_right fun completed => and_congr_right fun _ => ?_
  refine exists_congr fun descriptor => and_congr_right fun described => ?_
  rw [Target.moduleDirIn?_eq_some_iff]
  refine and_congr_right fun _ => exists_congr fun modules => and_congr_right fun present => ?_
  obtain ⟨front, lies⟩ := exists_liesAt described
  have clear : ∀ {c : Char}, isKeyChar c = false → c ∉ disk.name anchorDir →
      c ∉ target.moduleName := fun other absent =>
    completed ▸
      Target.notMem_moduleName_ofKey (Key.canonical_ofText text).moduleName other absent
  have noSlash := clear rfl fun slash => (Path.mem_of_mem_base slash).2 rfl
  have noBackslash := clear rfl fun backslash =>
    Path.notMem_toForwardSlashes _ (Path.mem_of_mem_base backslash).1
  have nonempty : target.moduleName ≠ [] := completed ▸ Target.moduleName_ofKey_ne_nil _ _
  rw [lies.child?_modulesDir_iff present nonempty noSlash noBackslash]
  -- a directory exists, so only where the name leads remains
  constructor
  · rintro ⟨⟨_, leads⟩, isDirectory⟩
    exact ⟨isDirectory, leads⟩
  · rintro ⟨isDirectory, leads⟩
    exact ⟨⟨disk.exists?_of_isDirectory isDirectory, leads⟩, isDirectory⟩

/-- Two dots in the place of the module's name address the directory of the component. -/
theorem dots_address_component_directory :
    let disk : Disk :=
      { root := .directory [("proj", .directory [("antora.yml", .file "name: c\n"),
          ("modules", .directory [("m", .directory [])])])]
        cwd := "/proj"
        sound := ⟨by decide⟩ }
    let project : Project := ⟨"/proj", .default, none, Index.ofSources [], 0⟩
    ¬ ∀ found ∈ (project.resolveAddress disk "/proj/modules/m" "..:").value,
      ∃ descriptor ∈ (project.readDescriptors disk).value,
        ∃ modules, descriptor.modulesDir = some modules ∧ found ∈ disk.children modules ∧
          disk.isModuleRoot found := by
  intro disk project modulesOnly
  have addressed : "/proj".toList ∈ (project.resolveAddress disk "/proj/modules/m" "..:").value := by
    decide +kernel
  obtain ⟨_, _, _, _, _, isModule⟩ := modulesOnly _ addressed
  exact absurd isModule (by decide +kernel)

end Project

end Crossref

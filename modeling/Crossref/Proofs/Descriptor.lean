import Crossref.Project
import Crossref.Proofs.Disk
import Crossref.Proofs.Key

/-! What holds of every descriptor that is read from a disk, whether its file is well-formed or not.
The modules that it lists are those that can be looked up by their names. -/

set_option autoImplicit false

namespace Crossref

namespace DescriptorContent

theorem scalar?_ne_empty (node : Yaml.Node) : scalar? node ≠ some [] := by
  intro read
  cases node with
  | scalar text =>
      simp only [scalar?] at read
      split at read
      · cases read
      · next absent =>
          cases read
          exact absent rfl
  | _ => cases read

/-- A descriptor has a version with a text or no version. -/
theorem version_ne_empty {text : Text} {content : DescriptorContent}
    (read : ofText text = .ok content) : content.version ≠ some [] := by
  intro empty
  unfold ofText at read
  split at read
  · cases read
  · split at read
    · cases read
      cases empty
    · split at read
      · cases read
        obtain ⟨node, _, spelled⟩ := Option.bind_eq_some_iff.mp empty
        exact scalar?_ne_empty node spelled
      · cases read

end DescriptorContent

namespace Descriptor

/-- What a descriptor says besides the content of its file is there on the disk, and its version has
a text. -/
structure Grounded (disk : Disk) (descriptor : Descriptor) : Prop where
  component : disk.parent? descriptor.file = some descriptor.componentDir
  modulesDir : descriptor.modulesDir = disk.child? descriptor.componentDir modulesName
  modules : descriptor.modules = (descriptor.modulesDir.map (listModules disk)).getD []
  version : descriptor.version ≠ some []

theorem grounded_of_read {disk : Disk} {file : Text} {descriptor : Descriptor}
    (found : (read disk file).value = some descriptor) : descriptor.Grounded disk := by
  unfold read at found
  split at found
  · cases found
  · next componentDir above =>
      simp only [Noted.value_bind, Noted.value_pure, Option.some.injEq] at found
      subst found
      constructor
      case component => exact above
      case modulesDir => dsimp only
      case modules => dsimp only
      case version =>
        dsimp only
        unfold readContent
        split
        · next content said => exact DescriptorContent.version_ne_empty said
        · exact fun empty => nomatch empty

theorem file_of_read {disk : Disk} {file : Text} {descriptor : Descriptor}
    (found : (read disk file).value = some descriptor) : descriptor.file = file := by
  unfold read at found
  split at found
  · cases found
  · simp only [Noted.value_bind, Noted.value_pure, Option.some.injEq] at found
    rw [← found]

theorem grounded_of_readAnchor {disk : Disk} {moduleDir : Text} {anchor : Descriptor}
    (found : (readAnchor disk moduleDir).value = some anchor) : anchor.Grounded disk := by
  unfold readAnchor at found
  split at found
  · cases found
  · exact grounded_of_read found

theorem mem_sortByProximity {descriptors : List Descriptor} {path : Text}
    {descriptor : Descriptor} :
    descriptor ∈ sortByProximity descriptors path ↔ descriptor ∈ descriptors := by
  simp [sortByProximity]

theorem mem_listModules {disk : Disk} {modulesDir : Text} {entry : ModuleEntry} :
    entry ∈ listModules disk modulesDir ↔
      (entry.path ∈ disk.children modulesDir ∧ disk.isDirectory entry.path ∧
        (disk.name entry.path).all isKeyChar) ∧ disk.name entry.path = entry.name := by
  simp only [listModules, List.mem_map, List.mem_filter, Bool.and_eq_true]
  constructor
  · rintro ⟨path, listed, rfl⟩
    exact ⟨listed, rfl⟩
  · rintro ⟨listed, named⟩
    exact ⟨entry.path, listed, by rw [named]⟩

/-- On a plain disk a descriptor lists the modules that can be looked up by a name that a key can
spell. -/
theorem Grounded.mem_modules_iff {disk : Disk} {descriptor : Descriptor}
    (grounded : descriptor.Grounded disk) (plain : disk.root.isPlain) {name path : Text} :
    ⟨name, path⟩ ∈ descriptor.modules ↔ name.all isKeyChar ∧ Path.IsName name ∧
      (descriptor.modulesDir.bind fun modules => disk.child? modules name).filter disk.isDirectory =
        some path := by
  rw [grounded.modules]
  cases found : descriptor.modulesDir with
  | none => simp
  | some modulesDir =>
      rw [Option.map_some, Option.getD_some, Option.bind_some, mem_listModules]
      dsimp only
      obtain ⟨position, nonempty, positionPlain, rfl⟩ := disk.exists_names_of_child?
        (grounded.modulesDir.symm.trans found) (by constructor <;> decide) (by decide)
      constructor
      · rintro ⟨⟨child, isDirectory, keyRun⟩, named⟩
        obtain ⟨entries, listing, listed, mem, joined⟩ := disk.mem_children.mp child
        obtain ⟨isName, listedPlain⟩ := disk.isName_of_list? listing mem
        have same : listed.1 = name := by
          rw [← named, joined, disk.joinParts_canonical _ isName (listedPlain plain)]
          exact (disk.name_ofNames_concat
            (disk.plain_names_concat _ isName (listedPlain plain))).symm
        rw [same] at joined isName
        rw [named] at keyRun
        have lookedUp : disk.child? (Path.ofNames position) name = some path :=
          disk.child?_eq_some_iff.mpr ⟨joined, disk.exists?_of_isDirectory isDirectory⟩
        exact ⟨keyRun, isName, Option.filter_eq_some_iff.mpr ⟨lookedUp, isDirectory⟩⟩
      · rintro ⟨keyRun, isName, lookedUp⟩
        obtain ⟨childFound, isDirectory⟩ := Option.filter_eq_some_iff.mp lookedUp
        have noBackslash : '\\' ∉ name := notMem_of_all_isKeyChar keyRun (by decide)
        have pathPlain := positionPlain.concat isName noBackslash
        obtain ⟨rfl, _⟩ := (disk.child?_ofNames_name_iff positionPlain isName noBackslash).mp childFound
        obtain ⟨inner, present⟩ := disk.exists_of_isDirectory isDirectory
        have named := disk.name_ofNames_concat pathPlain
        have child := disk.mem_children_ofNames nonempty pathPlain present
        exact ⟨⟨child, isDirectory, by rw [named]; exact keyRun⟩, named⟩

end Descriptor

namespace Project

variable {project : Project} {disk : Disk}

theorem value_readDescriptors (project : Project) (disk : Disk) :
    (project.readDescriptors disk).value =
      (project.findFilesNamed disk descriptorName).filterMap fun file =>
        (Descriptor.read disk file).value := by
  simp only [readDescriptors, Noted.mapM_eq, Noted.value_bind, Noted.value_pure, List.filterMap_map]
  rfl

theorem grounded_of_mem_readDescriptors {descriptor : Descriptor}
    (described : descriptor ∈ (project.readDescriptors disk).value) : descriptor.Grounded disk := by
  rw [value_readDescriptors, List.mem_filterMap] at described
  obtain ⟨file, _, found⟩ := described
  exact Descriptor.grounded_of_read found

end Project

end Crossref

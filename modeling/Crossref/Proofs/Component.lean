import Crossref.Proofs.Descriptor
import Crossref.Proofs.Search

/-! Where components lie. The file of every descriptor that is found lies under plain names. The
directories of the component and of its modules lie under the same names, and whoever looks from a
module of the component for a descriptor finds this one. -/

set_option autoImplicit false

namespace Crossref

theorem isName_descriptorName : Path.IsName descriptorName := by constructor <;> decide

theorem isName_modulesName : Path.IsName modulesName := by constructor <;> decide

namespace Descriptor

/-- The descriptor is read from an existing file in the directory under some names. -/
structure LiesAt (disk : Disk) (front : List Text) (descriptor : Descriptor) : Prop where
  plain : Path.Plain front
  file : descriptor.file = Path.ofNames (front ++ [descriptorName])
  present : disk.exists? descriptor.file
  read : (read disk descriptor.file).value = some descriptor

namespace LiesAt

variable {disk : Disk} {front : List Text} {descriptor : Descriptor}

theorem grounded (lies : descriptor.LiesAt disk front) : descriptor.Grounded disk :=
  grounded_of_read lies.read

theorem plainFile (lies : descriptor.LiesAt disk front) : Path.Plain (front ++ [descriptorName]) :=
  lies.plain.concat isName_descriptorName (by decide)

theorem componentDir (lies : descriptor.LiesAt disk front) :
    descriptor.componentDir = Path.ofNames front := by
  have above := lies.grounded.component
  rw [lies.file, Disk.parent?, Path.parent?_ofNames_concat disk.cwd lies.plainFile] at above
  exact (Option.some.inj above).symm

/-- One directory has one descriptor. -/
theorem unique {other : Descriptor} (lies : descriptor.LiesAt disk front)
    (otherLies : other.LiesAt disk front) : other = descriptor := by
  have same : other.file = descriptor.file := otherLies.file.trans lies.file.symm
  have read := otherLies.read
  rw [same, lies.read] at read
  exact (Option.some.inj read).symm

theorem child?_componentDir (lies : descriptor.LiesAt disk front) :
    disk.child? descriptor.componentDir descriptorName = some descriptor.file := by
  rw [lies.componentDir]
  exact (disk.child?_ofNames_name_iff lies.plain isName_descriptorName (by decide)).mpr
    ⟨lies.file, lies.present⟩

theorem modulesDir (lies : descriptor.LiesAt disk front) {modules : Text}
    (found : descriptor.modulesDir = some modules) :
    modules = Path.ofNames (front ++ [modulesName]) := by
  rw [lies.grounded.modulesDir, lies.componentDir] at found
  exact ((disk.child?_ofNames_name_iff lies.plain isName_modulesName (by decide)).mp found).1

theorem plainModules (lies : descriptor.LiesAt disk front) : Path.Plain (front ++ [modulesName]) :=
  lies.plain.concat isName_modulesName (by decide)

section Module

variable {name : Text}

theorem parent?_module (lies : descriptor.LiesAt disk front) (isName : Path.IsName name)
    (noBackslash : '\\' ∉ name) :
    disk.parent? (Path.ofNames (front ++ [modulesName] ++ [name])) =
      some (Path.ofNames (front ++ [modulesName])) :=
  Path.parent?_ofNames_concat disk.cwd (lies.plainModules.concat isName noBackslash)

theorem parent?_modulesDir (lies : descriptor.LiesAt disk front) :
    disk.parent? (Path.ofNames (front ++ [modulesName])) = some descriptor.componentDir := by
  rw [Disk.parent?, Path.parent?_ofNames_concat disk.cwd lies.plainModules, lies.componentDir]

/-- From a module of a component the descriptor of the component is found. -/
theorem readAnchor (lies : descriptor.LiesAt disk front) (isName : Path.IsName name)
    (noBackslash : '\\' ∉ name) :
    (readAnchor disk (Path.ofNames (front ++ [modulesName] ++ [name]))).value = some descriptor := by
  have file : anchorFile? disk (Path.ofNames (front ++ [modulesName] ++ [name])) =
      some descriptor.file := by
    simp only [anchorFile?, lies.parent?_module isName noBackslash, lies.parent?_modulesDir,
      lies.child?_componentDir, bind, Option.bind_some]
  rw [Descriptor.readAnchor, file]
  exact lies.read

theorem isModuleRoot (lies : descriptor.LiesAt disk front) (isName : Path.IsName name)
    (noBackslash : '\\' ∉ name) :
    disk.isModuleRoot (Path.ofNames (front ++ [modulesName] ++ [name])) := by
  have modules : disk.name (Path.ofNames (front ++ [modulesName])) = modulesName :=
    disk.name_ofNames_concat lies.plainModules
  simp only [Disk.isModuleRoot, lies.parent?_module isName noBackslash, modules, decide_true,
    lies.parent?_modulesDir, lies.child?_componentDir, Option.isSome_some, Bool.and_self]

end Module

end LiesAt

end Descriptor

namespace Project

variable {project : Project} {disk : Disk}

/-- Files that are met in ascending order are found in this order. -/
theorem findFilesNamed_of_ascending {name : Text} {files : List Text}
    (searched : disk.filesBelow? (fun found => found = name) project.config.exclude
      (disk.root.directoryCount + 1) (disk.canonical project.root) = some files)
    (ascending : files.Pairwise fun first second => Text.le first second) :
    project.findFilesNamed disk name = files := by
  rw [findFilesNamed, Disk.findFiles, searched]
  exact List.mergeSort_of_pairwise ascending

theorem exists_liesAt {descriptor : Descriptor}
    (described : descriptor ∈ (project.readDescriptors disk).value) :
    ∃ front, descriptor.LiesAt disk front := by
  rw [value_readDescriptors, List.mem_filterMap] at described
  obtain ⟨file, found, read⟩ := described
  have same := Descriptor.file_of_read read
  obtain ⟨front, plain, spelled, text, readable⟩ :=
    disk.readText?_of_mem_findFiles isName_descriptorName (by decide) found
  rw [← same] at read readable
  exact ⟨front, plain.of_concat, same.trans spelled, disk.exists?_of_readText? readable, read⟩

end Project

end Crossref

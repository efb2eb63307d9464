import Crossref.Proofs.Attribute
import Crossref.Proofs.ModuleDir.Nearest

/-! What the attributes of directories name. The directory of a family is always a directory. What a build has
generated is only known to exist. -/

set_option autoImplicit false

namespace Crossref

namespace Disk

variable {disk : Disk} {root found : Text} {names : List Text}

theorem snippetsDir?_eq_some_iff (plain : Path.Plain names) :
    disk.snippetsDir? root (Path.ofNames names) = some found ↔
      FirstOffer disk.KeepsSnippets (disk.ancestors root (Path.ofNames names)) found := by
  apply findSome?_eq_some_iff_firstOffer
  intro path onWay offered
  obtain ⟨front, _, frontPlain, rfl⟩ := ascent_ancestors.exists_prefix plain onWay
  apply findSome?_eq_some_iff_firstOffer
  intro layout listed snippets
  exact snippetsOf?_eq_some_iff frontPlain listed

theorem exists?_of_snippetsDir? (plain : Path.Plain names)
    (kept : disk.snippetsDir? root (Path.ofNames names) = some found) : disk.exists? found ∧ '\\' ∉ found := by
  obtain ⟨path, onWay, keeps⟩ := ((snippetsDir?_eq_some_iff plain).mp kept).exists_mem
  obtain ⟨front, _, frontPlain, rfl⟩ := ascent_ancestors.exists_prefix plain onWay
  obtain ⟨layout, listed, _, spelled, present⟩ := keeps.exists_mem
  obtain ⟨_, outputPlain⟩ := plain_of_mem_buildLayouts layout listed
  refine ⟨present, ?_⟩
  rw [spelled, below, disk.names_ofNames frontPlain]
  exact Path.notMem_ofNames (frontPlain.append outputPlain)

end Disk

namespace Project

variable {project : Project} {disk : Disk} {file name value : Text}

theorem directory_mem_snippetsAttributes_iff :
    .directory name value ∈ project.snippetsAttributes disk file ↔
      name = Attribute.snippetsName ∧
        ∃ start, disk.parent? file = some start ∧ disk.snippetsDir? project.root start = some value := by
  have spelled : ∀ start path, disk.parent? file = some start →
      disk.snippetsDir? project.root start = some path → Path.toForwardSlashes path = path := by
    intro start path above kept
    obtain ⟨names, plain, rfl⟩ := Disk.exists_ofNames_of_parent? above
    exact Path.toForwardSlashes_of_notMem (Disk.exists?_of_snippetsDir? plain kept).2
  simp only [snippetsAttributes, List.mem_map, Option.mem_toList, Option.bind_eq_some_iff,
    Attribute.directory.injEq]
  constructor
  · rintro ⟨path, ⟨start, above, kept⟩, rfl, rfl⟩
    rw [spelled start path above kept]
    exact ⟨rfl, start, above, kept⟩
  · rintro ⟨rfl, start, above, kept⟩
    exact ⟨value, ⟨start, above, kept⟩, rfl, spelled start value above kept⟩

/-- A family's directory is named after the family, and never like the snippets of a build. -/
theorem ofDirectory_mem_moduleAttributes
    (mem : .directory name value ∈ (project.moduleAttributes disk file).value) :
    name ≠ Attribute.snippetsName ∧ disk.isDirectory value := by
  rcases cases_of_mem_moduleAttributes mem with
    ⟨start, above, family, listed, path, kept, made⟩ | ⟨_, _, described⟩
  · obtain ⟨names, plain, rfl⟩ := Disk.exists_ofNames_of_parent? above
    obtain ⟨isDirectory, noBackslash⟩ := Disk.isDirectory_of_familyDir? plain kept
    rw [Attribute.ofFamily, Path.toForwardSlashes_of_notMem noBackslash] at made
    obtain ⟨rfl, rfl⟩ := Attribute.directory.inj made
    exact ⟨by cases family <;> decide, isDirectory⟩
  · cases described

theorem directory_mem_allAttributes_iff :
    .directory name value ∈ (project.allAttributes disk file).value ↔
      .directory name value ∈ project.snippetsAttributes disk file ∨
        .directory name value ∈ (project.moduleAttributes disk file).value := by
  have notDeclared : .directory name value ∉ project.index.attributes.values.map Attribute.indexed := by
    intro mem
    obtain ⟨_, _, made⟩ := List.mem_map.mp mem
    cases made
  simp only [allAttributes, Noted.value_bind, Noted.value_pure, List.mem_append, notDeclared, false_or]

/-- The attributes of a module name directories. So do all visible ones that name a path, but for `snippets`: it
names what the first build on the way up has generated, and this may be a file. -/
theorem directory_attributes_name_directories_or_snippets (project : Project) (disk : Disk) (file : Text) :
    (∀ name value, .directory name value ∈ (project.moduleAttributes disk file).value →
      disk.isDirectory value) ∧
    (∀ name value, .directory name value ∈ (project.allAttributes disk file).value →
      disk.isDirectory value ∨ name = Attribute.snippetsName ∧ ∃ text, disk.readText? value = some text) ∧
    ∀ value, .directory Attribute.snippetsName value ∈ (project.allAttributes disk file).value ↔
      ∃ start, disk.parent? file = some start ∧
        FirstOffer disk.KeepsSnippets (disk.ancestors project.root start) value := by
  refine ⟨fun name value mem => (ofDirectory_mem_moduleAttributes mem).2, ?_, ?_⟩
  · intro name value mem
    rcases directory_mem_allAttributes_iff.mp mem with fromBuild | fromModule
    · obtain ⟨named, start, above, kept⟩ := directory_mem_snippetsAttributes_iff.mp fromBuild
      obtain ⟨names, plain, rfl⟩ := Disk.exists_ofNames_of_parent? above
      rcases disk.exists?_iff.mp (Disk.exists?_of_snippetsDir? plain kept).1 with isFile | isDirectory
      · exact .inr ⟨named, isFile⟩
      · exact .inl isDirectory
    · exact .inl (ofDirectory_mem_moduleAttributes fromModule).2
  · intro value
    have notModule : .directory Attribute.snippetsName value ∉ (project.moduleAttributes disk file).value :=
      fun mem => (ofDirectory_mem_moduleAttributes mem).1 rfl
    rw [directory_mem_allAttributes_iff, or_iff_left notModule, directory_mem_snippetsAttributes_iff,
      and_iff_right rfl]
    apply exists_congr; intro start
    apply and_congr_right; intro above
    obtain ⟨names, plain, rfl⟩ := Disk.exists_ofNames_of_parent? above
    exact Disk.snippetsDir?_eq_some_iff plain

/-- A module with images, in a build whose snippets are a file. -/
theorem directory_attributes_name_directories_or_snippets_of_build :
    let file : Text := "/p/modules/m/pages/a.adoc"
    let images : Text := "/p/modules/m/images"
    let snippets : Text := "/p/target/generated-snippets"
    let disk : Disk :=
      { root := .directory [("p", .directory [("antora.yml", .file "name: c\n"),
          ("pom.xml", .file ""), ("target", .directory [("generated-snippets", .file "x")]),
          ("modules", .directory [("m", .directory [("images", .directory []),
            ("pages", .directory [])])])])]
        cwd := "/p"
        sound := ⟨by decide⟩ }
    let project : Project := ⟨"/p", .default, none, Index.ofSources [], 0⟩
    let all := (project.allAttributes disk file).value
    .directory "imagesdir" images ∈ all ∧ disk.isDirectory images ∧
    .directory Attribute.snippetsName snippets ∈ all ∧ ∃ text, disk.readText? snippets = some text := by
  intro file images snippets disk project all
  obtain ⟨ofModule, ofAll, _⟩ := directory_attributes_name_directories_or_snippets project disk file
  have imagesDefined : .directory "imagesdir" images ∈ (project.moduleAttributes disk file).value := by
    decide +kernel
  have imagesListed : .directory "imagesdir" images ∈ all :=
    directory_mem_allAttributes_iff.mpr (.inr imagesDefined)
  have snippetsListed : .directory Attribute.snippetsName snippets ∈ all := by decide +kernel
  have noDirectory : ¬ disk.isDirectory snippets := by decide +kernel
  exact ⟨imagesListed, ofModule _ _ imagesDefined, snippetsListed,
    ((ofAll _ _ snippetsListed).resolve_left noDirectory).2⟩

/-- A file in place of the generated snippets hides the directory of a build further up. -/
theorem snippets_attribute_may_name_file :
    let disk : Disk :=
      { root := .directory [("p", .directory [("pom.xml", .file ""),
          ("target", .directory [("generated-snippets", .directory [])]),
          ("svc", .directory [("pom.xml", .file ""),
            ("target", .directory [("generated-snippets", .file "x")])])])]
        cwd := "/p"
        sound := ⟨by decide⟩ }
    let project : Project := ⟨"/p", .default, none, Index.ofSources [], 0⟩
    disk.root.isPlain ∧ disk.isDirectory "/p/target/generated-snippets" ∧
    ¬ ∀ name value, .directory name value ∈ (project.allAttributes disk "/p/svc/a.adoc").value →
      disk.isDirectory value := by
  intro disk project
  have listed : .directory "snippets" "/p/svc/target/generated-snippets" ∈
      (project.allAttributes disk "/p/svc/a.adoc").value := by
    decide +kernel
  have noDirectory : ¬ disk.isDirectory "/p/svc/target/generated-snippets" := by decide +kernel
  exact ⟨by decide, by decide +kernel, fun directories => noDirectory (directories _ _ listed)⟩

end Project

end Crossref

import Crossref.Attribute
import Crossref.Proofs.Catalogue

/-! Visible attributes. To look one name up is to select it from all attributes that are visible: the
ones that the module or the build defines, or the declared ones if there are none. -/

set_option autoImplicit false

namespace Crossref

namespace Attribute

/-- Whether an attribute is defined by the module or the build and not declared in a document. -/
def isDefined : Attribute → Bool
  | indexed _ => false
  | directory _ _ => true
  | metadata _ _ => true

theorem eq_metadata_of_mem_ofDescriptor {descriptor : Descriptor} {moduleName : Text} {candidate : Attribute}
    (mem : candidate ∈ ofDescriptor descriptor moduleName) : ∃ name value, candidate = metadata name value := by
  simp only [ofDescriptor, List.mem_append, List.mem_map, List.mem_singleton] at mem
  rcases mem with (((⟨_, _, rfl⟩ | ⟨_, _, rfl⟩) | ⟨_, _, rfl⟩) | rfl) | ⟨_, _, rfl⟩ <;> exact ⟨_, _, rfl⟩

end Attribute

namespace Project

variable {project : Project} {disk : Disk} {file : Text}

/-- A module defines the directories of families, and what the descriptor of its component says. -/
theorem cases_of_mem_moduleAttributes {candidate : Attribute}
    (mem : candidate ∈ (project.moduleAttributes disk file).value) :
    (∃ start, disk.parent? file = some start ∧ ∃ family ∈ Attribute.families,
      ∃ path, disk.familyDir? project.root start family = some path ∧
        candidate = Attribute.ofFamily family path) ∨
    ∃ name value, candidate = .metadata name value := by
  unfold moduleAttributes at mem
  split at mem
  · cases mem
  · next start above =>
      split at mem
      · cases mem
      · next moduleDir _ =>
          have directories : ∀ candidate ∈ Attribute.families.filterMap fun family =>
              (disk.familyDir? project.root start family).map (Attribute.ofFamily family),
              ∃ family ∈ Attribute.families, ∃ path, disk.familyDir? project.root start family = some path ∧
                candidate = Attribute.ofFamily family path := by
            intro candidate listed
            obtain ⟨family, isListed, made⟩ := List.mem_filterMap.mp listed
            obtain ⟨path, found, rfl⟩ := Option.map_eq_some_iff.mp made
            exact ⟨family, isListed, path, found, rfl⟩
          simp only [Noted.value_bind] at mem
          split at mem
          · exact .inl ⟨start, above, directories candidate mem⟩
          · rcases List.mem_append.mp mem with directory | described
            · exact .inl ⟨start, above, directories candidate directory⟩
            · exact .inr (Attribute.eq_metadata_of_mem_ofDescriptor described)

theorem isDefined_moduleAttributes {candidate : Attribute}
    (mem : candidate ∈ (project.moduleAttributes disk file).value) : candidate.isDefined := by
  rcases cases_of_mem_moduleAttributes mem with ⟨_, _, _, _, _, _, rfl⟩ | ⟨_, _, rfl⟩ <;> rfl

theorem mem_snippetsAttributes {candidate : Attribute}
    (mem : candidate ∈ project.snippetsAttributes disk file) :
    candidate.isDefined ∧ candidate.name = Attribute.snippetsName := by
  obtain ⟨path, _, rfl⟩ := List.mem_map.mp mem
  exact ⟨rfl, rfl⟩

/-- The snippets of a build are looked up under their own name only, so that selecting a name from
them finds the same. -/
theorem filter_snippetsAttributes (key : Text) :
    ((project.snippetsAttributes disk file).filter fun candidate => candidate.name = key) =
      if key = Attribute.snippetsName then project.snippetsAttributes disk file else [] := by
  split
  · next same =>
      refine List.filter_eq_self.mpr fun candidate mem => decide_eq_true ?_
      rw [same]
      exact (mem_snippetsAttributes mem).2
  · next other =>
      refine List.filter_eq_nil_iff.mpr fun candidate mem named => other ?_
      exact (of_decide_eq_true named).symm.trans (mem_snippetsAttributes mem).2

/-- Of all visible attributes of a name, those that are defined. -/
theorem filter_isDefined_allAttributes (key : Text) :
    ((project.allAttributes disk file).value.filter fun candidate =>
        candidate.isDefined && candidate.name = key) =
      (if key = Attribute.snippetsName then project.snippetsAttributes disk file else []) ++
        (project.moduleAttributes disk file).value.filter fun candidate => candidate.name = key := by
  have selects : ∀ attributes : List Attribute, (∀ candidate ∈ attributes, candidate.isDefined) →
      (attributes.filter fun candidate => candidate.isDefined && candidate.name = key) =
        attributes.filter fun candidate => candidate.name = key :=
    fun attributes defined => List.filter_congr fun candidate mem => by
      rw [defined candidate mem, Bool.true_and]
  have noneDeclared : ∀ entries : List IndexedAttribute,
      ((entries.map Attribute.indexed).filter fun candidate =>
        candidate.isDefined && candidate.name = key) = [] := by
    intro entries
    refine List.filter_eq_nil_iff.mpr fun candidate mem => ?_
    obtain ⟨entry, _, rfl⟩ := List.mem_map.mp mem
    exact Bool.false_ne_true
  simp only [allAttributes, Noted.value_bind, Noted.value_pure, List.filter_append, noneDeclared,
    List.nil_append]
  rw [selects _ fun _ mem => (mem_snippetsAttributes mem).1, filter_snippetsAttributes,
    selects _ fun _ mem => isDefined_moduleAttributes mem]

/-- Of all visible attributes of a name, those that documents declare are filed under this name. -/
theorem filter_declared_allAttributes {sources : List Source}
    (built : project.index = Index.ofSources sources) (key : Text) :
    ((project.allAttributes disk file).value.filter fun candidate =>
        !candidate.isDefined && candidate.name = key) =
      (project.index.attributes.get key).map Attribute.indexed := by
  have noneSelected : ∀ attributes : List Attribute, (∀ candidate ∈ attributes, candidate.isDefined) →
      (attributes.filter fun candidate => !candidate.isDefined && candidate.name = key) = [] := by
    intro attributes defined
    refine List.filter_eq_nil_iff.mpr fun candidate mem => ?_
    rw [defined candidate mem]
    exact Bool.false_ne_true
  have declared : ∀ entries : List IndexedAttribute,
      ((entries.map Attribute.indexed).filter fun candidate =>
        !candidate.isDefined && candidate.name = key) =
        (entries.filter fun entry => entry.name = key).map Attribute.indexed := by
    intro entries
    rw [List.filter_map]
    rfl
  simp only [allAttributes, Noted.value_bind, Noted.value_pure, List.filter_append, declared]
  rw [noneSelected _ fun _ mem => (mem_snippetsAttributes mem).1,
    noneSelected _ fun _ mem => isDefined_moduleAttributes mem, List.append_nil, List.append_nil,
    built, Index.attributes_ofSources, Catalogue.filter_values_filed]

/-- What is found under a name is defined by the build or the module, or declared in a document. -/
theorem cases_of_mem_findAttributes {sources : List Source}
    (built : project.index = Index.ofSources sources) {name : Text} {candidate : Attribute}
    (mem : candidate ∈ (project.findAttributes disk name file).value) :
    candidate ∈ project.snippetsAttributes disk file ∨
      candidate ∈ (project.moduleAttributes disk file).value ∨
      ∃ entry, Declared.attribute entry ∈ sources.flatMap Declared.ofSource ∧ candidate = .indexed entry := by
  simp only [findAttributes, Noted.value_bind, Noted.value_pure, ← filter_snippetsAttributes] at mem
  split at mem
  · rw [built, Index.attributes_ofSources, Catalogue.get_filed] at mem
    obtain ⟨entry, listed, rfl⟩ := List.mem_map.mp mem
    obtain ⟨declared, origin, isEntry⟩ := List.mem_filterMap.mp (List.mem_filter.mp listed).1
    cases declared <;> cases isEntry
    exact .inr (.inr ⟨entry, origin, rfl⟩)
  · rcases List.mem_append.mp mem with fromBuild | fromModule
    · exact .inl (List.mem_filter.mp fromBuild).1
    · exact .inr (.inl (List.mem_filter.mp fromModule).1)

/-- Looking up one name finds the defined ones of all visible attributes of the name, or the declared
ones if none is defined. A name that is defined never leads to a declaration in a document. -/
theorem lookup_agrees_with_listing {sources : List Source}
    (built : project.index = Index.ofSources sources) (disk : Disk) (name file : Text) :
    let all := (project.allAttributes disk file).value
    let found := (project.findAttributes disk name file).value
    let defined := all.filter fun candidate => candidate.isDefined && candidate.name = Text.lower name
    let declared := all.filter fun candidate => !candidate.isDefined && candidate.name = Text.lower name
    found = (if defined = [] then declared else defined) ∧
      (defined ≠ [] → ∀ candidate ∈ found, candidate.isDefined) := by
  intro all found defined declared
  have answered : found = if defined = [] then declared else defined := by
    simp only [found, defined, declared, all, filter_isDefined_allAttributes,
      filter_declared_allAttributes built, findAttributes, Noted.value_bind, Noted.value_pure,
      List.isEmpty_iff]
  refine ⟨answered, fun hidden candidate mem => ?_⟩
  rw [answered, if_neg hidden] at mem
  exact (Bool.and_eq_true_iff.mp (List.mem_filter.mp mem).2).1

/-- The name of a module hides what a document of the module declares under this name. -/
theorem lookup_agrees_with_listing_of_module_name :
    let file : Text := "/p/modules/m/pages/a.adoc"
    let text : Text := ":Page-Module: other\n"
    let disk : Disk :=
      { root := .directory [("p", .directory [("antora.yml", .file "name: c\n"),
          ("modules", .directory [("m", .directory [("pages", .directory [
            ("a.adoc", .file text)])])])])]
        cwd := "/p"
        sound := ⟨by decide⟩ }
    let project : Project := ⟨"/p", .default, none, Index.ofSources [⟨file, text⟩], 0⟩
    let all := (project.allAttributes disk file).value
    let found := (project.findAttributes disk "Page-module" file).value
    found = [.metadata "page-module" "m"] ∧
    .indexed ⟨⟨"page-module", some "other"⟩, ⟨file, 1⟩⟩ ∈ all ∧
    found = all.filter (fun candidate => candidate.isDefined && candidate.name = "page-module".toList) ∧
    ∀ candidate ∈ found, candidate.isDefined := by
  intro file text disk project all found
  have answered : found = [.metadata "page-module" "m"] := by decide +kernel
  have listed : .indexed ⟨⟨"page-module", some "other"⟩, ⟨file, 1⟩⟩ ∈ all := by decide +kernel
  have lowered : Text.lower "Page-module" = "page-module".toList := by decide
  have built : project.index = Index.ofSources [⟨file, text⟩] := rfl
  obtain ⟨agrees, hides⟩ := lookup_agrees_with_listing built disk "Page-module" file
  rw [lowered] at agrees hides
  have defined : (all.filter fun candidate =>
      candidate.isDefined && candidate.name = "page-module".toList) ≠ [] := by
    decide +kernel
  exact ⟨answered, listed, agrees.trans (if_neg defined), hides defined⟩

end Project

end Crossref

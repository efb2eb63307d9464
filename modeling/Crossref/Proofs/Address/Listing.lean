import Crossref.Proofs.Address
import Crossref.Proofs.Proximity

/-! What is listed for a module directory. Every text that addresses a module is listed once, for the first module
that it addresses, where the modules of closer components come first. -/

set_option autoImplicit false

namespace Crossref

section

variable {α β : Type} [BEq β] [LawfulBEq β] {key : α → β}

theorem nodup_map_distinctFrom (seen : List β) (items : List α) :
    ((distinctFrom key seen items).map key).Nodup := by
  induction items generalizing seen with
  | nil => exact List.nodup_nil
  | cons first rest ih =>
      rw [distinctFrom]
      split
      · exact ih seen
      · rw [List.map_cons, List.nodup_cons]
        refine ⟨fun again => ?_, ih _⟩
        obtain ⟨other, kept, same⟩ := List.mem_map.mp again
        exact (find?_of_mem_distinctFrom kept).1 (same ▸ List.mem_cons_self)

/-- The first item with a new key is kept. -/
theorem mem_distinctFrom_of_find? {seen : List β} {items : List α} {item : α} (fresh : key item ∉ seen)
    (found : items.find? (fun other => key other == key item) = some item) :
    item ∈ distinctFrom key seen items := by
  induction items generalizing seen with
  | nil => cases found
  | cons first rest ih =>
      simp only [distinctFrom, List.contains_iff_mem]
      by_cases same : key first = key item
      · rw [List.find?_cons_of_pos (by simpa using same)] at found
        cases found
        rw [if_neg fresh]
        exact List.mem_cons_self
      · rw [List.find?_cons_of_neg (by simpa using same)] at found
        split
        · exact ih fresh found
        · refine List.mem_cons_of_mem _ (ih (fun known => ?_) found)
          rcases List.mem_cons.mp known with again | before
          · exact same again.symm
          · exact fresh before

theorem mem_distinctBy_iff {items : List α} {item : α} :
    item ∈ distinctBy key items ↔ items.find? (fun other => key other == key item) = some item :=
  ⟨fun kept => (find?_of_mem_distinctFrom kept).2, mem_distinctFrom_of_find? List.not_mem_nil⟩

end

namespace ModuleAddress

/-- What stands in front of the addresses of a component's modules: nothing in the version of the anchor, and the
version with its mark in another one. A component without a version has an empty one. -/
def Marks (anchor descriptor : Descriptor) (mark : Text) : Prop :=
  descriptor.version = anchor.version ∧ mark = [] ∨
    descriptor.version ≠ anchor.version ∧ mark = descriptor.version.getD [] ++ ['@']

/-- The texts that address a module of a component: its name if the component has the name of the anchor, the
component alone if it is the root module, and always component and name. A component without a name has an empty
one. -/
inductive Addresses (anchor descriptor : Descriptor) (entry : ModuleEntry) : Text → Prop
  | within {mark : Text} : Marks anchor descriptor mark → descriptor.name = anchor.name →
      Addresses anchor descriptor entry (mark ++ (entry.name ++ ":"))
  | root {mark : Text} : Marks anchor descriptor mark → entry.name = rootModuleName →
      Addresses anchor descriptor entry (mark ++ (descriptor.name.getD [] ++ "::"))
  | full {mark : Text} : Marks anchor descriptor mark →
      Addresses anchor descriptor entry (mark ++ (descriptor.name.getD [] ++ ":" ++ entry.name ++ ":"))

/-- The first of some descriptors with a module that a text addresses, and the first such module of it. -/
structure IsFirst (anchor : Descriptor) (descriptors : List Descriptor) (text : Text) (descriptor : Descriptor)
    (entry : ModuleEntry) : Prop where
  addresses : Addresses anchor descriptor entry text
  closest : ∃ front back, descriptors = front ++ descriptor :: back ∧
    ∀ other ∈ front, ∀ listed ∈ other.modules, ¬ Addresses anchor other listed text
  foremost : ∃ front back, descriptor.modules = front ++ entry :: back ∧
    ∀ other ∈ front, ¬ Addresses anchor descriptor other text

section

variable {anchor descriptor : Descriptor} {entry : ModuleEntry} {address : ModuleAddress}

theorem marks_iff {mark : Text} : Marks anchor descriptor mark ↔ mark = versionMark anchor descriptor := by
  rw [Marks, versionMark]
  split
  · next same => simp [same]
  · next other => simp [other]

theorem mem_ofModule_iff :
    address ∈ ofModule anchor descriptor entry ↔ Addresses anchor descriptor entry address.text ∧
      address = ⟨address.text, descriptor.name, entry.name, descriptor.title, entry.path⟩ := by
  constructor
  · intro made
    have marks : Marks anchor descriptor (versionMark anchor descriptor) := marks_iff.mpr rfl
    simp only [ofModule, List.mem_append, List.mem_singleton] at made
    rcases made with (within | root) | full
    · split at within
      · next same =>
          rw [List.mem_singleton.mp within]
          exact ⟨.within marks same, rfl⟩
      · cases within
    · split at root
      · next same =>
          rw [List.mem_singleton.mp root]
          exact ⟨.root marks same, rfl⟩
      · cases root
    · rw [full]
      exact ⟨.full marks, rfl⟩
  · rintro ⟨addresses, fields⟩
    rw [fields]
    generalize address.text = text at addresses
    simp only [ofModule, List.mem_append, List.mem_singleton]
    cases addresses with
    | within marks same =>
        rw [marks_iff.mp marks, if_pos same]
        exact .inl (.inl List.mem_cons_self)
    | root marks same =>
        rw [marks_iff.mp marks, if_pos same]
        exact .inl (.inr List.mem_cons_self)
    | full marks =>
        rw [marks_iff.mp marks]
        exact .inr rfl

theorem find?_ofModule_eq_none_iff {text : Text} :
    (ofModule anchor descriptor entry).find? (fun other => other.text == text) = none ↔
      ¬ Addresses anchor descriptor entry text := by
  rw [List.find?_eq_none]
  constructor
  · intro none addresses
    exact none ⟨text, descriptor.name, entry.name, descriptor.title, entry.path⟩
      (mem_ofModule_iff.mpr ⟨addresses, rfl⟩) (beq_self_eq_true text)
  · intro unaddressed other made same
    exact unaddressed (beq_iff_eq.mp same ▸ (mem_ofModule_iff.mp made).1)

theorem find?_ofModule_eq_some_iff {text : Text} :
    (ofModule anchor descriptor entry).find? (fun other => other.text == text) = some address ↔
      Addresses anchor descriptor entry text ∧
        address = ⟨text, descriptor.name, entry.name, descriptor.title, entry.path⟩ := by
  -- two forms of one module may be spelled alike, but then they are the same address
  have only : ∀ other, (ofModule anchor descriptor entry).find? (fun other => other.text == text) = some other →
      Addresses anchor descriptor entry text ∧
        other = ⟨text, descriptor.name, entry.name, descriptor.title, entry.path⟩ := by
    intro other found
    have same := List.find?_some found
    have made := mem_ofModule_iff.mp (List.mem_of_find?_eq_some found)
    rwa [beq_iff_eq.mp same] at made
  refine ⟨only address, ?_⟩
  rintro ⟨addresses, rfl⟩
  cases found : (ofModule anchor descriptor entry).find? (fun other => other.text == text) with
  | none => exact absurd addresses (find?_ofModule_eq_none_iff.mp found)
  | some other => rw [(only other found).2]

/-- Among the addresses of all modules of some descriptors, the first one with a text is that of the first module that
the text addresses. -/
theorem find?_eq_some_iff_isFirst {descriptors : List Descriptor} {text : Text} :
    (descriptors.flatMap fun descriptor => descriptor.modules.flatMap (ofModule anchor descriptor)).find?
        (fun other => other.text == text) = some address ↔
      ∃ descriptor entry, IsFirst anchor descriptors text descriptor entry ∧
        address = ⟨text, descriptor.name, entry.name, descriptor.title, entry.path⟩ := by
  simp only [List.find?_flatMap, List.findSome?_eq_some_iff, List.findSome?_eq_none_iff,
    find?_ofModule_eq_some_iff, find?_ofModule_eq_none_iff]
  constructor
  · rintro ⟨front, descriptor, back, split, ⟨before, entry, behind, modules, ⟨addresses, same⟩, notBefore⟩, closest⟩
    exact ⟨descriptor, entry, ⟨addresses, ⟨front, back, split, closest⟩, ⟨before, behind, modules, notBefore⟩⟩, same⟩
  · rintro ⟨descriptor, entry, ⟨addresses, ⟨front, back, split, closest⟩, ⟨before, behind, modules, notBefore⟩⟩, same⟩
    exact ⟨front, descriptor, back, split, ⟨before, entry, behind, modules, ⟨addresses, same⟩, notBefore⟩, closest⟩

/-- The title that a component lacks is that of the first titled descriptor with the same name. -/
theorem componentTitle?_eq (descriptors : List Descriptor) (name : Option Text) :
    componentTitle? descriptors name =
      (descriptors.find? fun other => other.name = name && other.title.isSome).bind (·.title) := by
  rw [componentTitle?]
  induction descriptors with
  | nil => rfl
  | cons first rest ih =>
      by_cases same : first.name = name
      · rw [List.filter_cons_of_pos (by simpa using same), List.findSome?_cons]
        cases titled : first.title with
        | none =>
            rw [List.find?_cons_of_neg (by simp [titled])]
            exact ih
        | some title =>
            rw [List.find?_cons_of_pos (by simp [same, titled])]
            exact titled.symm
      · rw [List.filter_cons_of_neg (by simpa using same), List.find?_cons_of_neg (by simp [same])]
        exact ih

/-- An address is listed for the first module that its text addresses. -/
theorem mem_ofDescriptors_iff {descriptors : List Descriptor} :
    address ∈ ofDescriptors anchor descriptors ↔
      ∃ descriptor entry, IsFirst anchor descriptors address.text descriptor entry ∧
        address = ⟨address.text, descriptor.name, entry.name,
          descriptor.title.orElse fun _ => componentTitle? descriptors descriptor.name, entry.path⟩ := by
  -- titles are filled in behind the selection, so what is kept does not depend on them
  rw [ofDescriptors, List.mem_map]
  constructor
  · rintro ⟨kept, mem, rfl⟩
    obtain ⟨descriptor, entry, first, fields⟩ := find?_eq_some_iff_isFirst.mp (mem_distinctBy_iff.mp mem)
    refine ⟨descriptor, entry, first, ?_⟩
    rw [fields]
  · rintro ⟨descriptor, entry, first, fields⟩
    refine ⟨⟨address.text, descriptor.name, entry.name, descriptor.title, entry.path⟩, ?_, fields.symm⟩
    exact mem_distinctBy_iff.mpr (find?_eq_some_iff_isFirst.mpr ⟨descriptor, entry, first, rfl⟩)

theorem nodup_text_ofDescriptors (descriptors : List Descriptor) :
    ((ofDescriptors anchor descriptors).map (·.text)).Nodup := by
  rw [ofDescriptors, List.map_map]
  exact nodup_map_distinctFrom [] _

/-- What addresses a module is listed. -/
theorem mem_map_text_ofDescriptors {descriptors : List Descriptor} (described : descriptor ∈ descriptors)
    (listed : entry ∈ descriptor.modules) {text : Text} (addresses : Addresses anchor descriptor entry text) :
    text ∈ (ofDescriptors anchor descriptors).map (·.text) := by
  let made : ModuleAddress := ⟨text, descriptor.name, entry.name, descriptor.title, entry.path⟩
  have candidate : ∃ other ∈ descriptors.flatMap fun descriptor =>
      descriptor.modules.flatMap (ofModule anchor descriptor), (other.text == text) = true :=
    ⟨made, List.mem_flatMap.mpr ⟨descriptor, described,
      List.mem_flatMap.mpr ⟨entry, listed, mem_ofModule_iff.mpr ⟨addresses, rfl⟩⟩⟩, beq_self_eq_true text⟩
  obtain ⟨kept, found⟩ := Option.isSome_iff_exists.mp (List.find?_isSome.mpr candidate)
  obtain ⟨first, foremost, isFirst, _⟩ := find?_eq_some_iff_isFirst.mp found
  exact List.mem_map.mpr ⟨⟨text, first.name, foremost.name, _, foremost.path⟩,
    mem_ofDescriptors_iff.mpr ⟨first, foremost, isFirst, rfl⟩, rfl⟩

end

end ModuleAddress

namespace Project

variable {project : Project} {disk : Disk} {moduleDir : Text} {anchor : Descriptor}

/-- The addresses that are listed for a directory of a component are distinct, and every module of every component has
its own. Each is listed for the first module that it addresses, closest component first. The title is that of its
component or, if this has a name but no title, of the first version of the component that has one. -/
theorem lists_every_address_once (found : (Descriptor.readAnchor disk moduleDir).value = some anchor) :
    let descriptors := (project.readDescriptors disk).value
    let sorted := Descriptor.sortByProximity descriptors moduleDir
    let listed := (project.moduleAddresses disk moduleDir).value
    let texts := listed.map (·.text)
    texts.Nodup ∧
    (∀ descriptor ∈ descriptors, ∀ entry ∈ descriptor.modules,
      ∃ mark, ModuleAddress.Marks anchor descriptor mark ∧
        mark ++ (descriptor.name.getD [] ++ ":" ++ entry.name ++ ":") ∈ texts ∧
        (entry.name = rootModuleName → mark ++ (descriptor.name.getD [] ++ "::") ∈ texts) ∧
        (descriptor.name = anchor.name → mark ++ (entry.name ++ ":") ∈ texts)) ∧
    (sorted.Perm descriptors ∧ sorted.Pairwise (Descriptor.Ahead moduleDir)) ∧
    ∀ address ∈ listed, ∃ descriptor entry,
      ModuleAddress.IsFirst anchor sorted address.text descriptor entry ∧
      address.componentName = descriptor.name ∧ address.moduleName = entry.name ∧
      address.moduleDir = entry.path ∧
      (descriptor.title.isSome → address.title = descriptor.title) ∧
      (descriptor.name.isSome → address.title = descriptor.title.orElse fun _ =>
        (sorted.find? fun other => other.name = descriptor.name && other.title.isSome).bind (·.title)) := by
  rw [value_moduleAddresses found]
  intro descriptors sorted listed texts
  refine ⟨?distinct, fun descriptor described entry has => ?complete,
    ⟨Descriptor.perm_sortByProximity _ _,
      Descriptor.pairwise_sortByProximity (project.pairwise_readDescriptors disk) moduleDir⟩,
    fun address mem => ?origin⟩
  case distinct => exact ModuleAddress.nodup_text_ofDescriptors sorted
  case complete =>
    have marks : ModuleAddress.Marks anchor descriptor (ModuleAddress.versionMark anchor descriptor) :=
      ModuleAddress.marks_iff.mpr rfl
    have isListed : ∀ {text}, ModuleAddress.Addresses anchor descriptor entry text → text ∈ texts :=
      ModuleAddress.mem_map_text_ofDescriptors (Descriptor.mem_sortByProximity.mpr described) has
    exact ⟨_, marks, isListed (.full marks), fun root => isListed (.root marks root),
      fun same => isListed (.within marks same)⟩
  case origin =>
    obtain ⟨descriptor, entry, isFirst, fields⟩ := ModuleAddress.mem_ofDescriptors_iff.mp mem
    refine ⟨descriptor, entry, isFirst, ?_⟩
    rw [fields, ModuleAddress.componentTitle?_eq]
    refine ⟨rfl, rfl, rfl, fun titled => ?_, fun _ => rfl⟩
    obtain ⟨title, spelled⟩ := Option.isSome_iff_exists.mp titled
    rw [spelled]
    rfl

/-- A component in two versions, seen from the one without a title: the root module of the other version has an
address with an empty version, and the title is that of the other version. -/
theorem lists_every_address_once_in_two_versions :
    let component (content : Text) (modules : List (Text × Entry)) : Entry :=
      .directory [("antora.yml", .file content), ("modules", .directory modules)]
    let disk : Disk :=
      { root := .directory [("p", .directory [
          ("a", component "name: c\nversion: v\n" [("m", .directory [])]),
          ("b", component "name: c\ntitle: T\n" [("ROOT", .directory [])])])]
        cwd := "/p"
        sound := ⟨by decide⟩ }
    let project : Project := ⟨"/p", .default, none, Index.ofSources [], 0⟩
    let anchor : Descriptor := ⟨⟨some "c", some "v", none, []⟩, "/p/a/antora.yml", "/p/a",
      some "/p/a/modules", [⟨"m", "/p/a/modules/m"⟩]⟩
    let listed := (project.moduleAddresses disk "/p/a/modules/m").value
    (Descriptor.readAnchor disk "/p/a/modules/m").value = some anchor ∧
    (listed.map (·.text)).Nodup ∧ ("@c::" : Text) ∈ listed.map (·.text) ∧
    ∃ address ∈ listed, address.text = "m:" ∧ address.title = some "T" := by
  intro component disk project anchor listed
  let other : Descriptor := ⟨⟨some "c", none, some "T", []⟩, "/p/b/antora.yml", "/p/b",
    some "/p/b/modules", [⟨"ROOT", "/p/b/modules/ROOT"⟩]⟩
  have found : (Descriptor.readAnchor disk "/p/a/modules/m").value = some anchor := by decide +kernel
  have files : project.findFilesNamed disk descriptorName =
      [("/p/a/antora.yml" : Text), "/p/b/antora.yml"] :=
    findFilesNamed_of_ascending (by decide +kernel) (by decide +kernel)
  have descriptors : (project.readDescriptors disk).value = [anchor, other] := by
    rw [value_readDescriptors, files]
    decide +kernel
  have sorted : Descriptor.sortByProximity [anchor, other] "/p/a/modules/m" = [anchor, other] :=
    Descriptor.sortByProximity_of_descending (by decide +kernel)
  have described : ∀ descriptor, descriptor ∈ (project.readDescriptors disk).value ↔
      descriptor = anchor ∨ descriptor = other := by
    intro descriptor
    rw [descriptors]
    exact List.mem_pair
  obtain ⟨nodup, complete, _, origin⟩ := @lists_every_address_once project disk "/p/a/modules/m" anchor found
  obtain ⟨mark, marks, _, root, _⟩ := complete other ((described other).mpr (.inr rfl)) _ List.mem_cons_self
  rw [ModuleAddress.marks_iff.mp marks] at root
  obtain ⟨anchorMark, anchorMarks, _, _, within⟩ :=
    complete anchor ((described anchor).mpr (.inl rfl)) _ List.mem_cons_self
  rw [ModuleAddress.marks_iff.mp anchorMarks] at within
  obtain ⟨address, mem, text⟩ := List.mem_map.mp (within rfl)
  obtain ⟨descriptor, _, isFirst, _, _, _, _, title⟩ := origin address mem
  obtain ⟨front, back, split, _⟩ := isFirst.closest
  have isSorted : descriptor ∈ front ++ descriptor :: back := List.mem_append_cons_self
  rw [← split, Descriptor.mem_sortByProximity, described] at isSorted
  rw [descriptors, sorted] at title
  refine ⟨found, nodup, root rfl, address, mem, text, ?_⟩
  rcases isSorted with rfl | rfl
  · exact title rfl
  · exact title rfl

end Project

end Crossref

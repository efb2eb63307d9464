import Crossref.Address
import Crossref.Proofs.Resolution.Target

/-! Listed addresses are keys of the modules that they are listed with. An address is the text of a
key whose missing parts the anchor fills in again, and among the modules that share an address both
the listing and the resolution take the closest one. -/

set_option autoImplicit false

namespace Crossref

/-- Of all items with one key the first is kept. -/
theorem find?_of_mem_distinctFrom {α β : Type} [BEq β] [LawfulBEq β] {key : α → β} {seen : List β}
    {items : List α} {item : α} (kept : item ∈ distinctFrom key seen items) :
    key item ∉ seen ∧ items.find? (fun other => key other == key item) = some item := by
  induction items generalizing seen with
  | nil => cases kept
  | cons first rest ih =>
      simp only [distinctFrom, List.contains_iff_mem] at kept
      split at kept
      · next known =>
          obtain ⟨fresh, found⟩ := ih kept
          refine ⟨fresh, ?_⟩
          have other : key first ≠ key item := fun same => fresh (same ▸ known)
          rw [List.find?_cons_of_neg (by simpa using other)]
          exact found
      · next new =>
          rcases List.mem_cons.mp kept with rfl | behind
          · exact ⟨new, List.find?_cons_of_pos (by simp)⟩
          · obtain ⟨fresh, found⟩ := ih behind
            have other : key first ≠ key item := fun same => fresh (same ▸ List.mem_cons_self)
            refine ⟨fun known => fresh (List.mem_cons_of_mem _ known), ?_⟩
            rw [List.find?_cons_of_neg (by simpa using other)]
            exact found

namespace ModuleAddress

/-- The version of the keys of a module, which is left out if it is that of the anchor. -/
def writtenVersion (anchor descriptor : Descriptor) : Option Text :=
  if descriptor.version = anchor.version then none else some (descriptor.version.getD [])

def keys (anchor descriptor : Descriptor) (entry : ModuleEntry) : List Key :=
  let key (component : Option Text) (moduleName : Text) : Key :=
    ⟨writtenVersion anchor descriptor, component, some moduleName, none, []⟩
  let within := if descriptor.name = anchor.name then [key none entry.name] else []
  let root := if entry.name = rootModuleName then [key descriptor.name []] else []
  within ++ root ++ [key descriptor.name entry.name]

section

variable {anchor descriptor : Descriptor} {entry : ModuleEntry}

theorem versionMark_eq_marked :
    versionMark anchor descriptor = Key.marked (writtenVersion anchor descriptor) '@' := by
  unfold versionMark writtenVersion
  split <;> rfl

theorem ofModule_eq_keys (named : descriptor.name.isSome) :
    ofModule anchor descriptor entry = (keys anchor descriptor entry).map fun key =>
      ⟨key.toText, descriptor.name, entry.name, descriptor.title, entry.path⟩ := by
  obtain ⟨name, spelled⟩ := Option.isSome_iff_exists.mp named
  simp only [ofModule, keys, versionMark_eq_marked, spelled, Option.getD_some, List.map_append,
    apply_ite (List.map _), List.map_cons, List.map_nil, Key.toText, Key.marked, Option.map_none,
    List.append_nil, List.nil_append, List.append_assoc, List.cons_append]
  rfl

/-- What the keys of a module have in common, and the two parts in which they differ. -/
theorem mem_keys {key : Key} (mem : key ∈ keys anchor descriptor entry) :
    ∃ component moduleName, key =
        ⟨writtenVersion anchor descriptor, component, some moduleName, none, []⟩ ∧
      (component = descriptor.name ∨ component = none ∧ descriptor.name = anchor.name) ∧
      (moduleName = entry.name ∨ moduleName = [] ∧ entry.name = rootModuleName) := by
  simp only [keys, List.mem_append, List.mem_singleton] at mem
  rcases mem with (within | root) | full
  · split at within
    · next same => exact ⟨_, _, List.mem_singleton.mp within, .inr ⟨rfl, same⟩, .inl rfl⟩
    · cases within
  · split at root
    · next same => exact ⟨_, _, List.mem_singleton.mp root, .inl rfl, .inr ⟨rfl, same⟩⟩
    · cases root
  · exact ⟨_, _, full, .inl rfl, .inl rfl⟩

/-- The anchor completes the keys of a module to the module itself. -/
theorem ofKey_of_mem_keys {key : Key} (mem : key ∈ keys anchor descriptor entry)
    (named : descriptor.name.isSome) (versioned : descriptor.version ≠ some [])
    (nonempty : entry.name ≠ []) (moduleName : Text) :
    Target.ofKey ⟨anchor.name, moduleName, anchor.version⟩ key =
      ⟨descriptor.name, entry.name, descriptor.version⟩ := by
  obtain ⟨component, writtenName, rfl, writtenComponent, written⟩ := mem_keys mem
  simp only [Target.ofKey, Target.mk.injEq]
  refine ⟨?component, ?moduleName, ?version⟩
  case component =>
    rcases writtenComponent with rfl | ⟨rfl, same⟩
    · obtain ⟨name, spelled⟩ := Option.isSome_iff_exists.mp named
      rw [spelled]
      rfl
    · exact same.symm
  case moduleName =>
    rcases written with rfl | ⟨rfl, same⟩
    · simp [nonempty]
    · exact same.symm
  case version =>
    by_cases same : descriptor.version = anchor.version
    · rw [writtenVersion, if_pos same]
      exact same.symm
    · rw [writtenVersion, if_neg same]
      cases spelled : descriptor.version with
      | none => rfl
      | some version =>
          have hasText : version ≠ [] := fun empty => versioned (empty ▸ spelled)
          simp [hasText]

theorem keyRuns_of_mem_keys {key : Key} (mem : key ∈ keys anchor descriptor entry)
    (componentRun : ∀ name ∈ descriptor.name, name.all isKeyChar)
    (entryRun : entry.name.all isKeyChar) :
    (∀ run ∈ key.component, run.all isKeyChar) ∧ ∀ run ∈ key.moduleName, run.all isKeyChar := by
  obtain ⟨component, writtenName, rfl, writtenComponent, written⟩ := mem_keys mem
  constructor
  · rcases writtenComponent with rfl | ⟨rfl, same⟩
    · exact componentRun
    · exact fun _ none => nomatch none
  · rintro name ⟨⟩
    rcases written with rfl | ⟨rfl, same⟩
    · exact entryRun
    · rfl

/-- The text of every key of a module can be read back. -/
theorem canonical_of_mem_keys {key : Key} (mem : key ∈ keys anchor descriptor entry)
    (componentRun : ∀ name ∈ descriptor.name, name.all isKeyChar)
    (versionRun : ∀ version ∈ descriptor.version, version.all isKeyChar)
    (entryRun : entry.name.all isKeyChar) : key.Canonical := by
  obtain ⟨keyComponent, keyModule⟩ := keyRuns_of_mem_keys mem componentRun entryRun
  obtain ⟨component, writtenName, rfl, _, _⟩ := mem_keys mem
  constructor
  case version =>
    intro version present
    unfold writtenVersion at present
    split at present
    · cases present
    · cases present
      cases spelled : descriptor.version with
      | none => rfl
      | some version => exact versionRun version spelled
  case component => exact keyComponent
  case moduleName => exact keyModule
  case addressed => exact fun _ => rfl
  case noFamily => exact fun _ => rfl
  case noAddress => exact fun _ _ => rfl
  case noVersion => exact fun _ absent => nomatch absent

/-- No mark of a version stands behind the version of a key of a module. -/
theorem toText_of_mem_keys {key : Key} (mem : key ∈ keys anchor descriptor entry)
    (componentRun : ∀ name ∈ descriptor.name, name.all isKeyChar)
    (entryRun : entry.name.all isKeyChar) :
    ∃ rest, '@' ∉ rest ∧ key.toText = Key.marked (writtenVersion anchor descriptor) '@' ++ rest := by
  obtain ⟨keyComponent, keyModule⟩ := keyRuns_of_mem_keys mem componentRun entryRun
  obtain ⟨component, writtenName, rfl, _, _⟩ := mem_keys mem
  refine ⟨Key.marked component ':' ++ Key.marked (some writtenName) ':', ?_, ?_⟩
  · have noMark : ∀ {part : Option Text}, (∀ run ∈ part, run.all isKeyChar) →
        '@' ∉ Key.marked part ':' := fun keyRun => Key.notMem_marked keyRun (by decide) (by decide)
    exact List.not_mem_append (noMark keyComponent) (noMark keyModule)
  · simp [Key.toText, Key.marked]

end

theorem eq_nil_of_getLast? {mark : Char} {front cut : Text}
    (ends : ∀ c ∈ (front ++ cut).getLast?, c = mark) (clear : mark ∉ cut) : cut = [] := by
  by_contra nonempty
  have last : (front ++ cut).getLast? = some (cut.getLast nonempty) := by
    rw [List.getLast?_append_of_ne_nil _ nonempty, List.getLast?_eq_some_getLast]
  exact clear (ends _ last ▸ List.getLast_mem nonempty)

/-- A text is cut in one way behind its last mark. -/
theorem front_eq_of_append_eq {mark : Char} {front other rest behind : Text}
    (same : front ++ rest = other ++ behind) (frontEnds : ∀ c ∈ front.getLast?, c = mark)
    (otherEnds : ∀ c ∈ other.getLast?, c = mark) (restClear : mark ∉ rest)
    (behindClear : mark ∉ behind) : front = other := by
  rcases List.append_eq_append_iff.mp same with ⟨cut, rfl, rfl⟩ | ⟨cut, rfl, rfl⟩
  · have nothing := eq_nil_of_getLast? otherEnds fun mem => restClear (List.mem_append_left _ mem)
    rw [nothing, List.append_nil]
  · have nothing := eq_nil_of_getLast? frontEnds fun mem => behindClear (List.mem_append_left _ mem)
    rw [nothing, List.append_nil]

theorem version_eq_of_writtenVersion_eq {anchor descriptor other : Descriptor}
    (same : writtenVersion anchor descriptor = writtenVersion anchor other)
    (versioned : descriptor.version ≠ some []) (otherVersioned : other.version ≠ some []) :
    descriptor.version = other.version := by
  unfold writtenVersion at same
  split at same
  · next anchored =>
      split at same
      · next otherAnchored => exact anchored.trans otherAnchored.symm
      · cases same
  · split at same
    · cases same
    · cases first : descriptor.version <;> cases second : other.version <;> simp_all

theorem fields_of_mem_ofModule {anchor descriptor : Descriptor} {entry : ModuleEntry}
    {address : ModuleAddress} (made : address ∈ ofModule anchor descriptor entry) :
    address.componentName = descriptor.name ∧ address.moduleName = entry.name ∧
      address.title = descriptor.title ∧ address.moduleDir = entry.path := by
  simp only [ofModule, List.mem_append, List.mem_singleton] at made
  rcases made with (within | root) | full
  · split at within
    · rw [List.mem_singleton.mp within]
      exact ⟨rfl, rfl, rfl, rfl⟩
    · cases within
  · split at root
    · rw [List.mem_singleton.mp root]
      exact ⟨rfl, rfl, rfl, rfl⟩
    · cases root
  · rw [full]
    exact ⟨rfl, rfl, rfl, rfl⟩

/-- An address comes from a descriptor if it is one of the addresses of a module of the descriptor.
Its title may be that of another descriptor. -/
def ComesFrom (address : ModuleAddress) (anchor descriptor : Descriptor) : Prop :=
  ∃ entry ∈ descriptor.modules,
    { address with title := descriptor.title } ∈ ofModule anchor descriptor entry

theorem ComesFrom.spec {address : ModuleAddress} {anchor descriptor : Descriptor}
    (origin : address.ComesFrom anchor descriptor) :
    descriptor.name = address.componentName ∧
      ⟨address.moduleName, address.moduleDir⟩ ∈ descriptor.modules ∧
      (descriptor.name.isSome →
        ∃ key ∈ keys anchor descriptor ⟨address.moduleName, address.moduleDir⟩,
          key.toText = address.text) := by
  obtain ⟨⟨name, path⟩, listed, made⟩ := origin
  obtain ⟨componentSame, nameSame, _, pathSame⟩ := fields_of_mem_ofModule made
  dsimp only at componentSame nameSame pathSame
  subst nameSame pathSame
  refine ⟨componentSame.symm, listed, fun named => ?_⟩
  rw [ofModule_eq_keys named] at made
  obtain ⟨key, mem, same⟩ := List.mem_map.mp made
  exact ⟨key, mem, congrArg ModuleAddress.text same⟩

theorem comesFrom_of_mem_keys {anchor descriptor : Descriptor} {entry : ModuleEntry} {key : Key}
    (named : descriptor.name.isSome) (listed : entry ∈ descriptor.modules)
    (mem : key ∈ keys anchor descriptor entry) :
    ∃ address : ModuleAddress, address.ComesFrom anchor descriptor ∧ address.text = key.toText := by
  refine ⟨⟨key.toText, descriptor.name, entry.name, descriptor.title, entry.path⟩,
    ⟨entry, listed, ?_⟩, rfl⟩
  rw [ofModule_eq_keys named]
  exact List.mem_map.mpr ⟨key, mem, rfl⟩

/-- Descriptors from which one address can come describe the same version of one component. -/
theorem ComesFrom.component_eq {address : ModuleAddress} {anchor descriptor other : Descriptor}
    (origin : address.ComesFrom anchor descriptor) (otherOrigin : address.ComesFrom anchor other)
    (named : descriptor.name.isSome) (componentRun : ∀ name ∈ descriptor.name, name.all isKeyChar)
    (entryRun : address.moduleName.all isKeyChar) (versioned : descriptor.version ≠ some [])
    (otherVersioned : other.version ≠ some []) :
    other.name = descriptor.name ∧ other.version = descriptor.version := by
  obtain ⟨component, _, written⟩ := origin.spec
  obtain ⟨otherComponent, _, otherWritten⟩ := otherOrigin.spec
  have sameName : other.name = descriptor.name := otherComponent.trans component.symm
  obtain ⟨key, mem, text⟩ := written named
  obtain ⟨otherKey, otherMem, otherText⟩ := otherWritten (by rw [sameName]; exact named)
  obtain ⟨rest, clear, cut⟩ := toText_of_mem_keys mem componentRun entryRun
  obtain ⟨otherRest, otherClear, otherCut⟩ :=
    toText_of_mem_keys otherMem (by rw [sameName]; exact componentRun) entryRun
  have sameText : Key.marked (writtenVersion anchor other) '@' ++ otherRest =
      Key.marked (writtenVersion anchor descriptor) '@' ++ rest := by
    rw [← otherCut, ← cut, otherText, text]
  have sameMark := front_eq_of_append_eq sameText (fun _ => Key.getLast?_marked)
    (fun _ => Key.getLast?_marked) otherClear clear
  exact ⟨sameName, version_eq_of_writtenVersion_eq (Key.marked_injective sameMark) otherVersioned
    versioned⟩

/-- A listed address comes from the first of the descriptors from which an address with this text
can come. -/
theorem first_of_mem_ofDescriptors {anchor : Descriptor} {descriptors : List Descriptor}
    {address : ModuleAddress} (listed : address ∈ ofDescriptors anchor descriptors) :
    ∃ front first back, descriptors = front ++ first :: back ∧ address.ComesFrom anchor first ∧
      ∀ earlier ∈ front, ∀ other : ModuleAddress, other.ComesFrom anchor earlier →
        other.text ≠ address.text := by
  obtain ⟨kept, distinct, rfl⟩ := List.mem_map.mp listed
  have found := (find?_of_mem_distinctFrom distinct).2
  rw [List.find?_flatMap, List.findSome?_eq_some_iff] at found
  obtain ⟨front, first, back, split, foundHere, notBefore⟩ := found
  refine ⟨front, first, back, split, ?_, ?_⟩
  · obtain ⟨entry, mem, made⟩ := List.mem_flatMap.mp (List.mem_of_find?_eq_some foundHere)
    refine ⟨entry, mem, ?_⟩
    have title := (fields_of_mem_ofModule made).2.2.1
    dsimp only
    rw [← title]
    exact made
  · intro earlier before other ⟨entry, mem, made⟩ same
    have none := List.find?_eq_none.mp (notBefore earlier before) _
      (List.mem_flatMap.mpr ⟨entry, mem, made⟩)
    exact none (beq_iff_eq.mpr same)

theorem keys_congr {anchor descriptor other : Descriptor} {entry otherEntry : ModuleEntry}
    (name : descriptor.name = other.name) (version : descriptor.version = other.version)
    (entryName : entry.name = otherEntry.name) :
    keys anchor descriptor entry = keys anchor other otherEntry := by
  simp only [keys, writtenVersion, name, version, entryName]

end ModuleAddress

namespace Project

variable {project : Project} {disk : Disk} {moduleDir : Text} {anchor : Descriptor}

theorem value_moduleAddresses (found : (Descriptor.readAnchor disk moduleDir).value = some anchor) :
    (project.moduleAddresses disk moduleDir).value = ModuleAddress.ofDescriptors anchor
      (Descriptor.sortByProximity (project.readDescriptors disk).value moduleDir) := by
  simp only [moduleAddresses, Noted.value_bind, found]
  rfl

theorem head?_resolveAddress (found : (Descriptor.readAnchor disk moduleDir).value = some anchor)
    {text : Text} {target : Target} (named : target.component.isSome)
    (completed : Target.ofKey ⟨anchor.name, disk.name moduleDir, anchor.version⟩
      { Key.ofText text with family := none } = target) :
    (project.resolveAddress disk moduleDir text).value.head? =
      (Descriptor.sortByProximity (project.readDescriptors disk).value moduleDir).findSome?
        (target.moduleDirIn? disk) := by
  rw [resolveAddress, project.value_targetModules disk moduleDir found completed named,
    List.head?_filterMap]

/-- A descriptor in which a module can be looked up under the name and version of another one has
the addresses of the module. -/
theorem comesFrom_of_moduleDirIn? {descriptor other : Descriptor} (grounded : other.Grounded disk)
    (plain : disk.root.isPlain) (named : descriptor.name.isSome) {name path otherPath : Text}
    (keyRun : name.all isKeyChar) (isName : Path.IsName name)
    (lookedUp : Target.moduleDirIn? ⟨descriptor.name, name, descriptor.version⟩ disk other =
      some otherPath)
    {key : Key} (mem : key ∈ ModuleAddress.keys anchor descriptor ⟨name, path⟩) :
    ∃ address : ModuleAddress, address.ComesFrom anchor other ∧ address.text = key.toText := by
  rw [Target.moduleDirIn?] at lookedUp
  split at lookedUp
  · next matched =>
      simp only [Bool.and_eq_true, decide_eq_true_eq] at matched
      obtain ⟨sameName, sameVersion⟩ := matched
      have listed := (grounded.mem_modules_iff plain).mpr ⟨keyRun, isName, lookedUp⟩
      have sameKeys : ModuleAddress.keys anchor other ⟨name, otherPath⟩ =
          ModuleAddress.keys anchor descriptor ⟨name, path⟩ :=
        ModuleAddress.keys_congr sameName sameVersion rfl
      exact ModuleAddress.comesFrom_of_mem_keys (by rw [sameName]; exact named) listed
        (sameKeys ▸ mem)
  · cases lookedUp

/-- Every address that is listed for a directory leads back, from there, to the module that it is
listed with, if keys can spell the name and the version of its component. -/
theorem listed_address_leads_to_module (plain : disk.root.isPlain)
    (found : (Descriptor.readAnchor disk moduleDir).value = some anchor)
    {descriptor : Descriptor} (described : descriptor ∈ (project.readDescriptors disk).value)
    {address : ModuleAddress} (listed : address ∈ (project.moduleAddresses disk moduleDir).value)
    (origin : address.ComesFrom anchor descriptor)
    (named : ∃ name, descriptor.name = some name ∧ name.all isKeyChar)
    (versioned : ∀ version ∈ descriptor.version, version.all isKeyChar) :
    (project.resolveAddress disk moduleDir address.text).value.head? = some address.moduleDir := by
  obtain ⟨name, spelled, nameRun⟩ := named
  have isNamed : descriptor.name.isSome := by rw [spelled]; rfl
  have componentRun : ∀ run ∈ descriptor.name, run.all isKeyChar := by
    rw [spelled]
    rintro run ⟨⟩
    exact nameRun
  rw [value_moduleAddresses found] at listed
  obtain ⟨front, first, back, split, firstOrigin, notBefore⟩ :=
    ModuleAddress.first_of_mem_ofDescriptors listed
  have isGrounded : ∀ other ∈ front ++ first :: back, other.Grounded disk := by
    intro other mem
    rw [← split, Descriptor.mem_sortByProximity] at mem
    exact grounded_of_mem_readDescriptors mem
  have grounded := grounded_of_mem_readDescriptors described
  have firstGrounded := isGrounded first List.mem_append_cons_self
  obtain ⟨_, firstHas, _⟩ := firstOrigin.spec
  obtain ⟨entryRun, isName, lookedUp⟩ := (firstGrounded.mem_modules_iff plain).mp firstHas
  obtain ⟨sameName, sameVersion⟩ := origin.component_eq firstOrigin isNamed componentRun entryRun
    grounded.version firstGrounded.version
  obtain ⟨_, _, written⟩ := origin.spec
  obtain ⟨key, mem, text⟩ := written isNamed
  have canonical := ModuleAddress.canonical_of_mem_keys mem componentRun versioned entryRun
  have completed : Target.ofKey ⟨anchor.name, disk.name moduleDir, anchor.version⟩
      { Key.ofText address.text with family := none } =
        ⟨descriptor.name, address.moduleName, descriptor.version⟩ := by
    obtain ⟨_, _, parts, _⟩ := ModuleAddress.mem_keys mem
    have noFamily : { key with family := none } = key := by rw [parts]
    rw [← text, Key.ofText_toText canonical, noFamily]
    exact ModuleAddress.ofKey_of_mem_keys mem isNamed grounded.version isName.nonempty _
  rw [head?_resolveAddress found isNamed completed, List.findSome?_eq_some_iff]
  refine ⟨front, first, back, split, ?_, ?_⟩
  · simp only [Target.moduleDirIn?, sameName, sameVersion, decide_true, Bool.and_self, if_true]
    exact lookedUp
  · intro earlier before
    cases result : Target.moduleDirIn? _ disk earlier with
    | none => rfl
    | some path =>
        obtain ⟨other, otherOrigin, otherText⟩ := comesFrom_of_moduleDirIn?
          (isGrounded earlier (List.mem_append_left _ before)) plain isNamed entryRun isName result mem
        exact absurd (otherText.trans text) (notBefore earlier before other otherOrigin)

/-- The root module of a component without a version, seen from a version of the component. -/
theorem listed_address_leads_to_module_without_version :
    let component (content : Text) (modules : List (Text × Entry)) : Entry :=
      .directory [("antora.yml", .file content), ("modules", .directory modules)]
    let disk : Disk :=
      { root := .directory [("p", .directory [
          ("a", component "name: c\n" [("ROOT", .directory [])]),
          ("b", component "name: c\nversion: v\n" [("m", .directory [])])])]
        cwd := "/p"
        sound := ⟨by decide⟩ }
    let project : Project := ⟨"/p/a", .default, none, Index.ofSources [], 0⟩
    let descriptor : Descriptor := ⟨⟨some "c", none, none, []⟩, "/p/a/antora.yml", "/p/a",
      some "/p/a/modules", [⟨"ROOT", "/p/a/modules/ROOT"⟩]⟩
    let address : ModuleAddress := ⟨"@c::", some "c", "ROOT", none, "/p/a/modules/ROOT"⟩
    descriptor ∈ (project.readDescriptors disk).value ∧
    address ∈ (project.moduleAddresses disk "/p/b/modules/m").value ∧
    (project.resolveAddress disk "/p/b/modules/m" address.text).value.head? =
      some address.moduleDir := by
  intro component disk project descriptor address
  let anchor : Descriptor := ⟨⟨some "c", some "v", none, []⟩, "/p/b/antora.yml", "/p/b",
    some "/p/b/modules", [⟨"m", "/p/b/modules/m"⟩]⟩
  have found : (Descriptor.readAnchor disk "/p/b/modules/m").value = some anchor := by
    decide +kernel
  have described : descriptor ∈ (project.readDescriptors disk).value := by decide +kernel
  have listed : address ∈ (project.moduleAddresses disk "/p/b/modules/m").value := by
    decide +kernel
  have origin : address.ComesFrom anchor descriptor :=
    ⟨⟨"ROOT", "/p/a/modules/ROOT"⟩, by decide, by decide⟩
  have plain : disk.root.isPlain := by decide
  have named : ∃ name, descriptor.name = some name ∧ name.all isKeyChar := ⟨"c", rfl, by decide⟩
  have versioned : ∀ version ∈ descriptor.version, version.all isKeyChar := by decide
  exact ⟨described, listed,
    listed_address_leads_to_module plain found described listed origin named versioned⟩

end Project

end Crossref

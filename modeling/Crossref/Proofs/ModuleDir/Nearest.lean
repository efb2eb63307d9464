import Crossref.Proofs.Component
import Crossref.Proofs.ModuleDir

/-! The closest hit above a directory. Each search that goes up finds what the first directory on its way
offers, and from a start in the project the way stays in the project. -/

set_option autoImplicit false

namespace Crossref

/-- What the first one of some items offers that offers anything. -/
def FirstOffer {α : Type} (offers : α → Text → Prop) (items : List α) (found : Text) : Prop :=
  ∃ before item after, items = before ++ item :: after ∧ offers item found ∧
    ∀ other ∈ before, ∀ missed, ¬ offers other missed

theorem FirstOffer.exists_mem {α : Type} {offers : α → Text → Prop} {items : List α} {found : Text}
    (first : FirstOffer offers items found) : ∃ item ∈ items, offers item found := by
  obtain ⟨before, item, after, rfl, offered, _⟩ := first
  exact ⟨item, List.mem_append_right _ List.mem_cons_self, offered⟩

theorem findSome?_eq_some_iff_firstOffer {α : Type} {search : α → Option Text}
    {offers : α → Text → Prop} {items : List α} {found : Text}
    (exact : ∀ item ∈ items, ∀ path, search item = some path ↔ offers item path) :
    items.findSome? search = some found ↔ FirstOffer offers items found := by
  rw [List.findSome?_eq_some_iff]
  apply exists_congr; intro before
  apply exists_congr; intro item
  apply exists_congr; intro after
  apply and_congr_right; intro split
  subst split
  apply and_congr
  · exact exact item (by simp) found
  · apply forall₂_congr
    intro other mem
    simp only [Option.eq_none_iff_forall_ne_some, ne_eq, exact other (by simp [mem])]

namespace Disk

variable {disk : Disk} {front : List Text} {path found : Text}

/-- What lies under some names below a directory. -/
def below (disk : Disk) (path : Text) (names : List Text) : Text := Path.ofNames (disk.names path ++ names)

/-- A module lies in a directory for modules, and the descriptor of its component lies next to that. -/
def IsModule (disk : Disk) (path : Text) : Prop :=
  ∃ component name, disk.names path = component ++ [modulesName, name] ∧
    disk.exists? (Path.ofNames (component ++ [descriptorName]))

/-- A build has its build file in a directory, and its generated snippets in its output there. -/
def HasSnippets (disk : Disk) (path : Text) (layout : Text × Text) (found : Text) : Prop :=
  disk.exists? (disk.below path [layout.1]) ∧ found = disk.below path [layout.2, snippetsName] ∧
    disk.exists? found

def KeepsSnippets (disk : Disk) (path found : Text) : Prop :=
  FirstOffer (disk.HasSnippets path) buildLayouts found

theorem isModuleRoot_iff (plain : Path.Plain front) :
    disk.isModuleRoot (Path.ofNames front) ↔ disk.IsModule (Path.ofNames front) := by
  have noNames : Path.Plain [] := List.forall_mem_nil _
  rw [IsModule, disk.names_ofNames plain]
  rcases List.eq_nil_or_concat' front with rfl | ⟨modules, name, rfl⟩
  · simp [isModuleRoot, parent?_ofNames_nil]
  have up : disk.parent? (Path.ofNames (modules ++ [name])) = some (Path.ofNames modules) :=
    Path.parent?_ofNames_concat disk.cwd plain
  rcases List.eq_nil_or_concat' modules with rfl | ⟨component, directory, rfl⟩
  · have noName : disk.name (Path.ofNames []) ≠ modulesName := by
      rw [Disk.name, Path.name, Path.canonical_ofNames disk.cwd noNames]
      decide
    have short : ∀ component other, [name] ≠ component ++ [modulesName, other] := by
      intro component other same
      have lengths := congrArg List.length same
      simp at lengths
    simp only [isModuleRoot, up]
    simp [noName, short]
  · have upAgain : disk.parent? (Path.ofNames (component ++ [directory])) = some (Path.ofNames component) :=
      Path.parent?_ofNames_concat disk.cwd plain.of_concat
    have named : disk.name (Path.ofNames (component ++ [directory])) = directory :=
      disk.name_ofNames_concat plain.of_concat
    have described : (disk.child? (Path.ofNames component) descriptorName).isSome ↔
        disk.exists? (Path.ofNames (component ++ [descriptorName])) := by
      rw [Option.isSome_iff_exists]
      simp only [disk.child?_ofNames_name_iff plain.of_concat.of_concat isName_descriptorName (by decide),
        exists_eq_left]
    simp only [isModuleRoot, up, named, upAgain, Bool.and_eq_true, decide_eq_true_eq, described]
    constructor
    · rintro ⟨rfl, present⟩
      exact ⟨component, name, by simp, present⟩
    · rintro ⟨other, last, same, present⟩
      have split : component ++ [directory, name] = other ++ [modulesName, last] := by simpa using same
      obtain ⟨rfl, ends⟩ := List.append_inj' split rfl
      cases ends
      exact ⟨rfl, present⟩

theorem plain_of_mem_buildLayouts :
    ∀ layout ∈ buildLayouts, Path.Plain [layout.1] ∧ Path.Plain [layout.2, snippetsName] := by
  decide

/-- The output of one build tool in a directory, if the tool is used there. -/
def snippetsOf? (disk : Disk) (path : Text) (layout : Text × Text) : Option Text :=
  match disk.child? path layout.1 with
  | none => none
  | some _ => disk.descend? path [layout.2, snippetsName]

theorem snippetsOf?_eq_some_iff (plain : Path.Plain front) {layout : Text × Text}
    (mem : layout ∈ buildLayouts) :
    disk.snippetsOf? (Path.ofNames front) layout = some found ↔
      disk.HasSnippets (Path.ofNames front) layout found := by
  obtain ⟨filePlain, outputPlain⟩ := plain_of_mem_buildLayouts layout mem
  obtain ⟨isName, noBackslash⟩ := filePlain layout.1 List.mem_cons_self
  have built : ∀ file, disk.child? (Path.ofNames front) layout.1 = some file ↔
      file = Path.ofNames (front ++ [layout.1]) ∧ disk.exists? file := fun _ =>
    disk.child?_ofNames_name_iff plain isName noBackslash
  have output : disk.descend? (Path.ofNames front) [layout.2, snippetsName] = some found ↔
      found = Path.ofNames (front ++ [layout.2, snippetsName]) ∧ disk.exists? found :=
    descend?_eq_some_iff (List.cons_ne_nil _ _) (plain.append outputPlain)
  simp only [HasSnippets, below, disk.names_ofNames plain, snippetsOf?]
  cases child : disk.child? (Path.ofNames front) layout.1 with
  | some file =>
      obtain ⟨rfl, present⟩ := (built file).mp child
      rw [and_iff_right present]
      exact output
  | none =>
      have absent : ¬ disk.exists? (Path.ofNames (front ++ [layout.1])) := by
        intro present
        exact nomatch child.symm.trans ((built _).mpr ⟨rfl, present⟩)
      simp [absent]

/-- Searches that go up find what the closest directory offers. From a start at or below the project
root they meet no directory above it. -/
theorem searches_find_closest (disk : Disk) {root start : Text} (rootCanonical : disk.canonical root = root)
    (startCanonical : disk.canonical start = start) :
    ∃ way, disk.Ascent root start way ∧
      (∀ path ∈ way, disk.isModuleRoot path ↔ disk.IsModule path) ∧
      (∀ found, disk.moduleRoot? root start = some found ↔
        FirstOffer (fun path offered => disk.IsModule path ∧ offered = path) way found) ∧
      (∀ family found, disk.familyDir? root start family = some found ↔
        FirstOffer (disk.KeepsFamily family) way found) ∧
      (∀ found, disk.snippetsDir? root start = some found ↔ FirstOffer disk.KeepsSnippets way found) ∧
      (disk.names root <+: disk.names start → ∀ path ∈ way, disk.names root <+: disk.names path) := by
  obtain ⟨rootPlain, rootSpelled⟩ := ofNames_of_canonical rootCanonical
  obtain ⟨startPlain, startSpelled⟩ := ofNames_of_canonical startCanonical
  have ascent : disk.Ascent (Path.ofNames (disk.names root)) (Path.ofNames (disk.names start))
      (disk.ancestors root start) := by
    rw [rootSpelled, startSpelled]
    exact ascent_ancestors
  have plainWay : ∀ path ∈ disk.ancestors root start, ∃ front, Path.Plain front ∧ path = Path.ofNames front := by
    intro path mem
    obtain ⟨front, _, plain, spelled⟩ := ascent.exists_prefix startPlain mem
    exact ⟨front, plain, spelled⟩
  have modules : ∀ path ∈ disk.ancestors root start, disk.isModuleRoot path ↔ disk.IsModule path := by
    intro path mem
    obtain ⟨front, plain, rfl⟩ := plainWay path mem
    exact isModuleRoot_iff plain
  refine ⟨disk.ancestors root start, ascent_ancestors, modules, ?_, ?_, ?_, ?_⟩
  · intro found
    rw [moduleRoot?, List.find?_eq_findSome?_guard]
    apply findSome?_eq_some_iff_firstOffer
    intro path mem offered
    rw [Option.guard_eq_some_iff, modules path mem, and_comm, eq_comm]
  · intro family found
    rw [familyDir?_eq]
    apply findSome?_eq_some_iff_firstOffer
    intro path mem offered
    obtain ⟨front, plain, rfl⟩ := plainWay path mem
    exact (keepsFamily_ofNames_iff plain).symm
  · intro found
    apply findSome?_eq_some_iff_firstOffer
    intro path mem offered
    obtain ⟨front, plain, rfl⟩ := plainWay path mem
    apply findSome?_eq_some_iff_firstOffer
    intro layout listed path
    exact snippetsOf?_eq_some_iff plain listed
  · intro inside path mem
    exact ascent.prefix_names rootPlain startPlain inside mem

/-- The closest module has no images, and a module above it, which holds the component of the closest one,
has some. -/
theorem searches_find_closest_past_module_without_family :
    let root : Text := "/p"
    let start : Text := "/p/modules/m/modules/n"
    let images : Text := "/p/modules/m/images"
    let disk : Disk :=
      { root := .directory [("p", .directory [("antora.yml", .file "name: c\n"),
          ("modules", .directory [("m", .directory [("antora.yml", .file "name: d\n"),
            ("images", .directory []), ("modules", .directory [("n", .directory [])])])])])]
        cwd := "/p"
        sound := ⟨by decide⟩ }
    disk.canonical root = root ∧ disk.canonical start = start ∧
    disk.moduleRoot? root start = some start ∧ disk.familyDir? root start .images = some images ∧
    ∃ way, disk.Ascent root start way ∧
      FirstOffer (fun path offered => disk.IsModule path ∧ offered = path) way start ∧
      FirstOffer (disk.KeepsFamily .images) way images ∧
      ∀ path ∈ way, disk.names root <+: disk.names path := by
  intro root start images disk
  have rootCanonical : disk.canonical root = root := by decide +kernel
  have startCanonical : disk.canonical start = start := by decide +kernel
  have closest : disk.moduleRoot? root start = some start := by decide +kernel
  have kept : disk.familyDir? root start .images = some images := by decide +kernel
  have inside : disk.names root <+: disk.names start := by decide +kernel
  obtain ⟨way, ascent, _, modules, families, _, bounded⟩ :=
    searches_find_closest disk rootCanonical startCanonical
  exact ⟨rootCanonical, startCanonical, closest, kept, way, ascent, (modules _).mp closest,
    (families _ _).mp kept, bounded inside⟩

end Disk

end Crossref

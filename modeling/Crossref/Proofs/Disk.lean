import Crossref.Disk
import Crossref.Proofs.Path

/-! What paths lead to. On a disk whose names hold no backslash every path that is built from a
directory and a name in it leads to the entry of that name. -/

set_option autoImplicit false

namespace Crossref

theorem Text.mem_sort {text : Text} {texts : List Text} : text ∈ sort texts ↔ text ∈ texts := by
  rw [sort, List.mem_mergeSort]

namespace Entry

mutual

/-- Whether no name in a tree holds a backslash. -/
def isPlain : Entry → Bool
  | file _ => true
  | directory entries => isPlainIn entries

def isPlainIn : List (Text × Entry) → Bool
  | [] => true
  | (name, entry) :: rest => !name.contains '\\' && isPlain entry && isPlainIn rest

end

theorem plain_of_mem {listed : Text × Entry} {entries : List (Text × Entry)}
    (plain : isPlainIn entries) (mem : listed ∈ entries) : '\\' ∉ listed.1 ∧ listed.2.isPlain := by
  induction entries with
  | nil => cases mem
  | cons first rest ih =>
      obtain ⟨present, old⟩ := first
      simp only [isPlainIn, Bool.and_eq_true, Bool.not_eq_true', List.contains_eq_mem,
        decide_eq_false_iff_not] at plain
      rcases List.mem_cons.mp mem with rfl | behind
      · exact plain.1
      · exact ih plain.2 behind

theorem find?_of_mem {name : Text} {entry : Entry} {entries : List (Text × Entry)}
    (sound : isSoundIn entries) (mem : (name, entry) ∈ entries) : find? name entries = some entry := by
  induction entries with
  | nil => cases mem
  | cons first rest ih =>
      obtain ⟨present, old⟩ := first
      simp only [isSoundIn, Bool.and_eq_true] at sound
      obtain ⟨⟨⟨_, different⟩, _⟩, restSound⟩ := sound
      rcases List.mem_cons.mp mem with same | behind
      · cases same
        exact if_pos rfl
      · have other : present ≠ name := by
          rintro rfl
          exact of_decide_eq_true (List.all_eq_true.mp different _ behind) rfl
        rw [find?, if_neg other]
        exact ih restSound behind

/-- A name that a directory may list is one that paths keep. -/
theorem isName_of_isEntryName {name : Text} (allowed : isEntryName name) : Path.IsName name := by
  simp only [isEntryName, Bool.and_eq_true, decide_eq_true_eq, Bool.not_eq_true',
    List.contains_eq_mem, decide_eq_false_iff_not] at allowed
  obtain ⟨⟨⟨⟨nonempty, noDot⟩, noDots⟩, noSlash⟩, _⟩ := allowed
  exact ⟨nonempty, noDot, noDots, noSlash⟩

/-- A property that directories pass on to what they hold is passed on along every walk. -/
theorem holds_of_walk? (holds : Entry → Prop)
    (inherited : ∀ {entries name entry}, holds (directory entries) →
      find? name entries = some entry → holds entry)
    {here found : Entry} {above : List Entry} {path : List Text}
    (walked : walk? here above path = some found) (start : holds here)
    (passed : ∀ entry ∈ above, holds entry) : holds found := by
  induction path generalizing here above with
  | nil =>
      cases walked
      exact start
  | cons component rest ih =>
      cases here with
      | file text => cases walked
      | directory entries =>
          simp only [walk?] at walked
          split at walked
          · exact ih walked start passed
          · split at walked
            · split at walked
              · exact ih walked start passed
              · next parent further =>
                  obtain ⟨parentHolds, furtherHold⟩ := List.forall_mem_cons.mp passed
                  exact ih walked parentHolds furtherHold
            · split at walked
              · next entry listed =>
                  exact ih walked (inherited start listed) (List.forall_mem_cons.mpr ⟨start, passed⟩)
              · cases walked

theorem walk?_slash {here : Entry} {above : List Entry} {rest : List Text} (nonempty : rest ≠ []) :
    walk? here above ([] :: rest) = walk? here above rest := by
  cases here with
  | directory entries => simp [walk?]
  | file text =>
      cases rest with
      | nil => exact absurd rfl nonempty
      | cons component behind => rfl

theorem walk?_cons {entries : List (Text × Entry)} {above : List Entry} {name : Text}
    (isName : Path.IsName name) (rest : List Text) :
    walk? (directory entries) above (name :: rest) =
      (find? name entries).bind fun entry => walk? entry (directory entries :: above) rest := by
  simp only [walk?, isName.nonempty, isName.noDot, isName.noDots, decide_false, Bool.or_false,
    Bool.false_eq_true, if_false]
  cases find? name entries <;> rfl

/-- The entry behind names and one more is listed under it in the directory behind the names. -/
theorem walk?_concat_iff {here found : Entry} {above : List Entry} {names : List Text} {name : Text}
    (named : ∀ other ∈ names, Path.IsName other) (isName : Path.IsName name) :
    walk? here above (names ++ [name]) = some found ↔
      ∃ entries, walk? here above names = some (directory entries) ∧
        find? name entries = some found := by
  induction names generalizing here above with
  | nil =>
      cases here with
      | file text =>
          constructor
          · intro walked
            cases walked
          · rintro ⟨entries, reached, _⟩
            cases reached
      | directory entries =>
          rw [List.nil_append, walk?_cons isName]
          constructor
          · intro walked
            obtain ⟨entry, listed, reached⟩ := Option.bind_eq_some_iff.mp walked
            cases reached
            exact ⟨entries, rfl, listed⟩
          · rintro ⟨_, ⟨⟩, listed⟩
            rw [listed]
            rfl
  | cons first rest ih =>
      obtain ⟨firstNamed, restNamed⟩ := List.forall_mem_cons.mp named
      cases here with
      | file text =>
          constructor
          · intro walked
            cases walked
          · rintro ⟨entries, reached, _⟩
            cases reached
      | directory entries =>
          rw [List.cons_append, walk?_cons firstNamed, walk?_cons firstNamed]
          cases find? first entries with
          | none => simp
          | some entry => exact ih restNamed

end Entry

namespace Disk

variable (disk : Disk)

theorem names_of_isAbsolute {path : Text} (absolute : Path.isAbsolute path) :
    disk.names path = Path.resolveDots false (Path.components path) := by
  rw [names, Path.absolute, if_pos absolute]

theorem isName_of_mem_names {path name : Text} (mem : name ∈ disk.names path) :
    name ∈ Path.components (Path.absolute disk.cwd path) ∧ Path.IsName name :=
  Path.isName_of_mem_resolveDots
    (fun _ listed slash => (Path.mem_of_mem_components listed slash).2 rfl) mem

theorem plain_names {path : Text} (absolute : Path.isAbsolute path) (noBackslash : '\\' ∉ path) :
    Path.Plain (disk.names path) := by
  intro name mem
  obtain ⟨component, isName⟩ := disk.isName_of_mem_names mem
  rw [Path.absolute, if_pos absolute] at component
  exact ⟨isName, fun backslash => noBackslash (Path.mem_of_mem_components component backslash).1⟩

theorem plain_names_canonical (path : Text) : Path.Plain (disk.names (disk.canonical path)) :=
  disk.plain_names (Path.isAbsolute_canonical disk.cwd path) (Path.notMem_toForwardSlashes _)

theorem names_ofNames {names : List Text} (plain : Path.Plain names) :
    disk.names (Path.ofNames names) = names := by
  rw [Disk.names, Path.absolute_ofNames, Path.resolveDots_components_ofNames plain]

theorem plain_names_concat (path : Text) {name : Text} (isName : Path.IsName name)
    (plain : '\\' ∉ name) : Path.Plain (disk.names (disk.canonical path) ++ [name]) :=
  (disk.plain_names_canonical path).concat isName plain

theorem joinParts_of_isAbsolute {path name : Text} (absolute : Path.isAbsolute path)
    (noBackslash : '\\' ∉ path) (isName : Path.IsName name) (plain : '\\' ∉ name) :
    Path.joinParts [path, name] = Path.ofNames (disk.names path ++ [name]) := by
  have plainNames := (disk.plain_names absolute noBackslash).concat isName plain
  rw [Path.joinParts, Path.join_child absolute isName, ← disk.names_of_isAbsolute absolute,
    Path.toForwardSlashes_of_notMem (Path.notMem_ofNames plainNames)]

theorem joinParts_canonical (path : Text) {name : Text} (isName : Path.IsName name)
    (plain : '\\' ∉ name) :
    Path.joinParts [disk.canonical path, name] =
      Path.ofNames (disk.names (disk.canonical path) ++ [name]) :=
  disk.joinParts_of_isAbsolute (Path.isAbsolute_canonical disk.cwd path)
    (Path.notMem_toForwardSlashes _) isName plain

theorem name_ofNames_concat {front : List Text} {name : Text} (plain : Path.Plain (front ++ [name])) :
    disk.name (Path.ofNames (front ++ [name])) = name := by
  rw [Disk.name, Path.name, Path.canonical_ofNames disk.cwd plain]
  exact Path.base_ofNames_concat front (plain name List.mem_concat_self).1

theorem child?_eq_some_iff {path name below : Text} :
    disk.child? path name = some below ↔
      below = Path.joinParts [disk.canonical path, name] ∧ disk.exists? below := by
  rw [child?]
  split
  · next present =>
      constructor
      · rintro ⟨⟩
        exact ⟨rfl, present⟩
      · rintro ⟨rfl, _⟩
        rfl
  · next absent =>
      constructor
      · intro found
        cases found
      · rintro ⟨rfl, present⟩
        exact absurd present absent

theorem child?_ofNames_iff {position : List Text} (plain : Path.Plain position)
    {component below : Text} (nonempty : component ≠ []) (noSlash : '/' ∉ component)
    (noBackslash : '\\' ∉ component) :
    disk.child? (Path.ofNames position) component = some below ↔
      below = Path.ofNames (Path.follow false position.reverse component).reverse ∧
        disk.exists? below := by
  rw [child?_eq_some_iff, Disk.canonical, Path.canonical_ofNames disk.cwd plain,
    Path.joinParts_ofNames plain nonempty noSlash noBackslash]

theorem child?_ofNames_name_iff {position : List Text} (plain : Path.Plain position)
    {name below : Text} (isName : Path.IsName name) (noBackslash : '\\' ∉ name) :
    disk.child? (Path.ofNames position) name = some below ↔
      below = Path.ofNames (position ++ [name]) ∧ disk.exists? below := by
  rw [disk.child?_ofNames_iff plain isName.nonempty isName.noSlash noBackslash,
    Path.reverse_follow_of_isName isName]

theorem exists_names_of_child? {path name below : Text} (found : disk.child? path name = some below)
    (isName : Path.IsName name) (noBackslash : '\\' ∉ name) :
    ∃ names, names ≠ [] ∧ Path.Plain names ∧ below = Path.ofNames names := by
  obtain ⟨joined, _⟩ := disk.child?_eq_some_iff.mp found
  exact ⟨_, List.concat_ne_nil _ _, disk.plain_names_concat path isName noBackslash,
    joined.trans (disk.joinParts_canonical path isName noBackslash)⟩

theorem exists?_of_readText? {path text : Text} (readable : disk.readText? path = some text) :
    disk.exists? path := by
  rw [readText?] at readable
  split at readable
  · next found => rw [exists?, found, Option.isSome_some]
  · cases readable

theorem exists_of_isDirectory {path : Text} (directory : disk.isDirectory path) :
    ∃ entries, disk.entry? path = some (.directory entries) := by
  rw [isDirectory] at directory
  split at directory
  · next entries found => exact ⟨entries, found⟩
  · cases directory

theorem exists?_of_isDirectory {path : Text} (directory : disk.isDirectory path) : disk.exists? path := by
  obtain ⟨entries, found⟩ := disk.exists_of_isDirectory directory
  rw [exists?, found, Option.isSome_some]

theorem exists?_iff {path : Text} :
    disk.exists? path ↔ (∃ text, disk.readText? path = some text) ∨ disk.isDirectory path := by
  rw [exists?, readText?, isDirectory]
  cases disk.entry? path with
  | none => simp
  | some entry => cases entry <;> simp

theorem mem_children {path child : Text} :
    child ∈ disk.children path ↔ ∃ entries, disk.list? (disk.canonical path) = some entries ∧
      ∃ listed ∈ entries, child = Path.joinParts [disk.canonical path, listed.1] := by
  simp only [children, List.mem_map, Text.mem_sort]
  constructor
  · rintro ⟨name, ⟨listed, mem, rfl⟩, rfl⟩
    cases listing : disk.list? (disk.canonical path) with
    | none =>
        rw [listing] at mem
        cases mem
    | some entries =>
        rw [listing] at mem
        exact ⟨entries, rfl, listed, mem, rfl⟩
  · rintro ⟨entries, listing, listed, mem, rfl⟩
    rw [listing]
    exact ⟨listed.1, ⟨listed, mem, rfl⟩, rfl⟩

theorem walk?_of_entry? {path : Text} {entry : Entry} (found : disk.entry? path = some entry) :
    disk.root.walk? [] (Path.components (Path.absolute disk.cwd path)) = some entry := by
  rw [Disk.entry?] at found
  split at found
  · cases found
  · exact found

theorem entry?_ofNames {names : List Text} (nonempty : names ≠ [])
    (named : ∀ name ∈ names, Path.IsName name) :
    disk.entry? (Path.ofNames names) =
      if (Path.ofNames names).contains '\x00' then none else disk.root.walk? [] names := by
  have cut : ∀ name ∈ names, '/' ∉ name := fun name mem => (named name mem).noSlash
  rw [Disk.entry?, Path.absolute_ofNames, Path.components_ofNames nonempty cut,
    Entry.walk?_slash nonempty]
  rfl

theorem entry?_of_list? {path : Text} {entries : List (Text × Entry)}
    (listing : disk.list? path = some entries) : disk.entry? path = some (.directory entries) := by
  rw [list?] at listing
  split at listing
  · next reached =>
      cases listing
      exact reached
  · cases listing

theorem list?_of_entry? {path : Text} {entries : List (Text × Entry)}
    (found : disk.entry? path = some (.directory entries)) : disk.list? path = some entries := by
  rw [list?, found]

theorem noNul_of_entry? {path : Text} {entry : Entry} (found : disk.entry? path = some entry) :
    '\x00' ∉ path := by
  intro nul
  simp [Disk.entry?, nul] at found

theorem sound_of_list? {path : Text} {entries : List (Text × Entry)}
    (listing : disk.list? path = some entries) : Entry.isSoundIn entries :=
  Entry.holds_of_walk? (Entry.isSound ·)
    (fun above found => (Entry.sound_of_mem above (Entry.mem_of_find? found)).2)
    (disk.walk?_of_entry? (disk.entry?_of_list? listing)) disk.sound.checked
    (fun _ none => nomatch none)

/-- What a directory lists are names, plain ones on a plain disk. -/
theorem isName_of_list? {path : Text} {entries : List (Text × Entry)} {listed : Text × Entry}
    (listing : disk.list? path = some entries) (mem : listed ∈ entries) :
    Path.IsName listed.1 ∧ (disk.root.isPlain → '\\' ∉ listed.1) := by
  constructor
  · exact Entry.isName_of_isEntryName (Entry.sound_of_mem (disk.sound_of_list? listing) mem).1
  · intro rootPlain
    have plain : (Entry.directory entries).isPlain :=
      Entry.holds_of_walk? (Entry.isPlain ·)
        (fun above found => (Entry.plain_of_mem above (Entry.mem_of_find? found)).2)
        (disk.walk?_of_entry? (disk.entry?_of_list? listing)) rootPlain (fun _ none => nomatch none)
    exact (Entry.plain_of_mem plain mem).1

/-- What a directory lists under a name is what the path with this name leads to. -/
theorem entry?_of_mem {front : List Text} {name : Text} {entry : Entry} {entries : List (Text × Entry)}
    (named : ∀ other ∈ front, Path.IsName other)
    (listing : disk.list? (Path.ofNames front) = some entries) (mem : (name, entry) ∈ entries) :
    disk.entry? (Path.ofNames (front ++ [name])) = some entry := by
  have sound := disk.sound_of_list? listing
  have allowed := (Entry.sound_of_mem sound mem).1
  have isName := Entry.isName_of_isEntryName allowed
  have found := disk.entry?_of_list? listing
  have allNamed : ∀ other ∈ front ++ [name], Path.IsName other := by
    intro other listed
    rcases List.mem_append.mp listed with before | last
    · exact named other before
    · exact List.mem_singleton.mp last ▸ isName
  have reached : disk.root.walk? [] front = some (.directory entries) := by
    cases front with
    | nil =>
        have atRoot : disk.root.walk? [] [[], []] = some (.directory entries) := found
        cases here : disk.root with
        | file text =>
            rw [here] at atRoot
            cases atRoot
        | directory inner =>
            rw [here, Entry.walk?_slash (List.cons_ne_nil _ _)] at atRoot
            simpa [Entry.walk?] using atRoot
    | cons first rest =>
        rw [disk.entry?_ofNames (List.cons_ne_nil _ _) named] at found
        split at found
        · cases found
        · exact found
  have noNul : (Path.ofNames (front ++ [name])).contains '\x00' = false := by
    have nameNoNul : '\x00' ∉ name := by simp_all [Entry.isEntryName]
    have frontNoNul := disk.noNul_of_entry? found
    cases front with
    | nil => simpa [Path.ofNames, Text.join] using nameNoNul
    | cons first rest =>
        rw [Path.ofNames_concat (List.cons_ne_nil _ _)]
        simp [frontNoNul, nameNoNul]
  rw [disk.entry?_ofNames (List.concat_ne_nil name front) allNamed, noNul]
  exact (Entry.walk?_concat_iff named isName).mpr ⟨entries, reached, Entry.find?_of_mem sound mem⟩

/-- What a plain path leads to is listed, under its last name, by the directory before it. -/
theorem mem_of_entry? {front : List Text} {name : Text} {entry : Entry} (nonempty : front ≠ [])
    (plain : Path.Plain (front ++ [name]))
    (found : disk.entry? (Path.ofNames (front ++ [name])) = some entry) :
    ∃ entries, disk.list? (Path.ofNames front) = some entries ∧ (name, entry) ∈ entries := by
  have named : ∀ other ∈ front ++ [name], Path.IsName other := fun other mem => (plain other mem).1
  have frontNamed : ∀ other ∈ front, Path.IsName other :=
    fun other mem => named other (List.mem_append_left _ mem)
  rw [disk.entry?_ofNames (List.concat_ne_nil name front) named] at found
  split at found
  · cases found
  · next noNul =>
      obtain ⟨entries, reached, listed⟩ :=
        (Entry.walk?_concat_iff frontNamed (named name List.mem_concat_self)).mp found
      have frontNoNul : ¬ (Path.ofNames front).contains '\x00' := by
        rw [Path.ofNames_concat nonempty] at noNul
        simp_all
      have frontFound : disk.entry? (Path.ofNames front) = some (.directory entries) := by
        rw [disk.entry?_ofNames nonempty frontNamed, if_neg frontNoNul, reached]
      exact ⟨entries, by rw [list?, frontFound], Entry.mem_of_find? listed⟩

/-- What a plain path leads to is a child of the directory before it. -/
theorem mem_children_ofNames {front : List Text} {name : Text} {entry : Entry} (nonempty : front ≠ [])
    (plain : Path.Plain (front ++ [name]))
    (found : disk.entry? (Path.ofNames (front ++ [name])) = some entry) :
    Path.ofNames (front ++ [name]) ∈ disk.children (Path.ofNames front) := by
  obtain ⟨entries, listing, mem⟩ := disk.mem_of_entry? nonempty plain found
  have isName := (plain name List.mem_concat_self).1
  have here : disk.canonical (Path.ofNames front) = Path.ofNames front :=
    Path.canonical_ofNames disk.cwd plain.of_concat
  refine disk.mem_children.mpr ⟨entries, by rw [here, listing], (name, entry), mem, ?_⟩
  rw [here, Path.joinParts_ofNames plain.of_concat isName.nonempty isName.noSlash
    (plain name List.mem_concat_self).2, Path.reverse_follow_of_isName isName]

end Disk

end Crossref

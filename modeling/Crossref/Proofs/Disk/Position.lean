import Crossref.Proofs.Search

/-! Positions on a disk. A path leads where its names lead from the root, however it is spelled, and a
tree has as many positions of directories as it has directories. -/

set_option autoImplicit false

namespace Crossref

/-- An absolute path with forward slashes only. -/
structure Path.IsForward (path : Text) : Prop where
  absolute : Path.isAbsolute path
  noBackslash : '\\' ∉ path

theorem Path.isForward_ofNames {names : List Text} (plain : Path.Plain names) :
    Path.IsForward (Path.ofNames names) :=
  ⟨rfl, Path.notMem_ofNames plain⟩

namespace Entry

mutual

/-- The names under which a tree holds its directories, none for the tree itself. -/
def positions : Entry → List (List Text)
  | file _ => []
  | directory entries => [] :: positionsIn entries

def positionsIn : List (Text × Entry) → List (List Text)
  | [] => []
  | (name, entry) :: rest => (positions entry).map (name :: ·) ++ positionsIn rest

end

mutual

theorem length_positions (entry : Entry) : entry.positions.length = entry.directoryCount := by
  cases entry with
  | file text => rfl
  | directory entries =>
      rw [positions, directoryCount, List.length_cons, length_positionsIn entries]

theorem length_positionsIn (entries : List (Text × Entry)) :
    (positionsIn entries).length = directoryCountIn entries := by
  cases entries with
  | nil => rfl
  | cons listed rest =>
      rw [positionsIn, directoryCountIn, List.length_append, List.length_map, length_positions listed.2,
        length_positionsIn rest]

end

theorem mem_positionsIn {name : Text} {entry : Entry} {entries : List (Text × Entry)}
    {position : List Text} (mem : (name, entry) ∈ entries) (below : position ∈ entry.positions) :
    name :: position ∈ positionsIn entries := by
  induction entries with
  | nil => cases mem
  | cons listed rest ih =>
      rw [positionsIn, List.mem_append]
      rcases List.mem_cons.mp mem with rfl | behind
      · exact .inl (List.mem_map_of_mem below)
      · exact .inr (ih behind)

/-- A directory to which names lead stands at one of the positions. -/
theorem mem_positions {here : Entry} {above : List Entry} {names : List Text}
    {entries : List (Text × Entry)} (named : ∀ name ∈ names, Path.IsName name)
    (walked : here.walk? above names = some (directory entries)) : names ∈ here.positions := by
  induction names generalizing here above with
  | nil =>
      cases walked
      exact List.mem_cons_self
  | cons name rest ih =>
      obtain ⟨isName, restNamed⟩ := List.forall_mem_cons.mp named
      cases here with
      | file text => cases walked
      | directory inner =>
          rw [walk?_cons isName] at walked
          obtain ⟨entry, listed, reached⟩ := Option.bind_eq_some_iff.mp walked
          exact List.mem_cons_of_mem _ (mem_positionsIn (mem_of_find? listed) (ih restNamed reached))

/-- The names of a walk are listed, so what is passed on from directories holds of them. -/
theorem holds_of_mem_walk? (holds : Entry → Prop) {named : Text → Prop}
    (inherited : ∀ {entries name entry}, holds (directory entries) →
      find? name entries = some entry → named name ∧ holds entry)
    {here found : Entry} {above : List Entry} {names : List Text}
    (areNames : ∀ name ∈ names, Path.IsName name) (start : holds here)
    (walked : walk? here above names = some found) : ∀ name ∈ names, named name := by
  induction names generalizing here above with
  | nil => exact List.forall_mem_nil _
  | cons name rest ih =>
      obtain ⟨isName, restNames⟩ := List.forall_mem_cons.mp areNames
      cases here with
      | file text => cases walked
      | directory entries =>
          rw [walk?_cons isName] at walked
          obtain ⟨entry, listed, reached⟩ := Option.bind_eq_some_iff.mp walked
          obtain ⟨here, below⟩ := inherited start listed
          exact List.forall_mem_cons.mpr ⟨here, ih restNames below reached⟩

end Entry

namespace Disk

variable {disk : Disk}

/-- What a path leads to is where its names lead from the root. -/
theorem walk?_names {path : Text} {entry : Entry} (found : disk.entry? path = some entry) :
    disk.root.walk? [] (disk.names path) = some entry :=
  Entry.walk?_resolveDots (fun _ listed slash => (Path.mem_of_mem_components listed slash).2 rfl)
    (disk.walk?_of_entry? found)

theorem isForward_canonical (disk : Disk) (path : Text) : Path.IsForward (disk.canonical path) :=
  ⟨Path.isAbsolute_canonical disk.cwd path, Path.notMem_toForwardSlashes _⟩

theorem names_mem_positions {path : Text} {entries : List (Text × Entry)}
    (listing : disk.list? path = some entries) : disk.names path ∈ disk.root.positions :=
  Entry.mem_positions (fun _ mem => (disk.isName_of_mem_names mem).2)
    (walk?_names (disk.entry?_of_list? listing))

/-- The path of names leads where the names lead. -/
theorem entry?_ofNames_iff {names : List Text} {entry : Entry} (nonempty : names ≠ [])
    (areNames : ∀ name ∈ names, Path.IsName name) :
    disk.entry? (Path.ofNames names) = some entry ↔ disk.root.walk? [] names = some entry := by
  rw [disk.entry?_ofNames nonempty areNames]
  constructor
  · intro found
    split at found
    · cases found
    · exact found
  · intro walked
    have noNul : ∀ name ∈ names, '\x00' ∉ name := by
      refine Entry.holds_of_mem_walk? (Entry.isSound ·) ?_ areNames disk.sound.checked walked
      intro entries name entry sound listed
      obtain ⟨allowed, below⟩ := Entry.sound_of_mem sound (Entry.mem_of_find? listed)
      exact ⟨by simp_all [Entry.isEntryName], below⟩
    rw [if_neg, walked]
    intro nul
    rcases Path.mem_ofNames (List.contains_iff_mem.mp nul) with slash | ⟨name, mem, present⟩
    · cases slash
    · exact noNul name mem present

theorem plain_of_walk? (rootPlain : disk.root.isPlain) {names : List Text} {entry : Entry}
    (areNames : ∀ name ∈ names, Path.IsName name) (walked : disk.root.walk? [] names = some entry) :
    Path.Plain names := by
  have noBackslash : ∀ name ∈ names, '\\' ∉ name :=
    Entry.holds_of_mem_walk? (Entry.isPlain ·)
      (fun plain listed => Entry.plain_of_mem plain (Entry.mem_of_find? listed)) areNames rootPlain walked
  exact fun name mem => ⟨areNames name mem, noBackslash name mem⟩

theorem plain_of_entry?_ofNames (rootPlain : disk.root.isPlain) {names : List Text} {entry : Entry}
    (nonempty : names ≠ []) (areNames : ∀ name ∈ names, Path.IsName name)
    (found : disk.entry? (Path.ofNames names) = some entry) : Path.Plain names :=
  plain_of_walk? rootPlain areNames ((entry?_ofNames_iff nonempty areNames).mp found)

/-- On a plain disk a path that leads somewhere is tidied to the path of its names. -/
theorem canonical_of_entry? (rootPlain : disk.root.isPlain) {path : Text} {entry : Entry}
    (found : disk.entry? path = some entry) :
    Path.Plain (disk.names path) ∧ disk.canonical path = Path.ofNames (disk.names path) := by
  have plain := plain_of_walk? rootPlain (fun _ mem => (disk.isName_of_mem_names mem).2) (walk?_names found)
  exact ⟨plain, Path.toForwardSlashes_of_notMem (Path.notMem_ofNames plain)⟩

theorem isName_of_mem_names_append {path : Text} {names : List Text}
    (areNames : ∀ name ∈ names, Path.IsName name) :
    ∀ name ∈ disk.names path ++ names, Path.IsName name :=
  List.forall_mem_append.mpr ⟨fun _ mem => (disk.isName_of_mem_names mem).2, areNames⟩

theorem isDirectory_iff {path : Text} :
    disk.isDirectory path ↔ ∃ entries, disk.entry? path = some (.directory entries) := by
  refine ⟨disk.exists_of_isDirectory, ?_⟩
  rintro ⟨entries, found⟩
  rw [isDirectory, found]

/-- What lies under names and one more lies in a directory under these names. -/
theorem isDirectory_of_concat {names : List Text} {name : Text} {entry : Entry} (nonempty : names ≠ [])
    (areNames : ∀ other ∈ names ++ [name], Path.IsName other)
    (found : disk.entry? (Path.ofNames (names ++ [name])) = some entry) :
    disk.isDirectory (Path.ofNames names) := by
  obtain ⟨frontNames, isName⟩ := List.forall_mem_append.mp areNames
  have walked := (entry?_ofNames_iff (List.concat_ne_nil name names) areNames).mp found
  obtain ⟨entries, reached, _⟩ :=
    (Entry.walk?_concat_iff frontNames (isName name List.mem_cons_self)).mp walked
  exact isDirectory_iff.mpr ⟨entries, (entry?_ofNames_iff nonempty frontNames).mpr reached⟩

/-- The directory in front of what lies further below a path than right there. -/
theorem directory_of_entry? (rootPlain : disk.root.isPlain) {path name : Text} {front : List Text}
    {entry : Entry} (nonempty : front ≠ []) (frontNames : ∀ other ∈ front, Path.IsName other)
    (isName : Path.IsName name)
    (found : disk.entry? (Path.ofNames (disk.names path ++ front ++ [name])) = some entry) :
    disk.isDirectory (Path.ofNames (disk.names path ++ front)) ∧
      Path.Plain (disk.names path ++ front) := by
  have passed : disk.names path ++ front ≠ [] := List.append_ne_nil_of_right_ne_nil _ nonempty
  have areNames : ∀ other ∈ disk.names path ++ front ++ [name], Path.IsName other :=
    List.forall_mem_append.mpr
      ⟨isName_of_mem_names_append frontNames, List.forall_mem_singleton.mpr isName⟩
  exact ⟨isDirectory_of_concat passed areNames found,
    (plain_of_entry?_ofNames rootPlain (List.concat_ne_nil name _) areNames found).of_concat⟩

/-- The directory at a path lists an entry under a name. -/
def Lists (disk : Disk) (path name : Text) (entry : Entry) : Prop :=
  ∃ entries, disk.list? path = some entries ∧ (name, entry) ∈ entries

theorem mem_filterMap_list?_iff {α : Type} {change : Text × Entry → Option α} {path : Text} {result : α} :
    result ∈ ((disk.list? path).getD []).filterMap change ↔
      ∃ name entry, disk.Lists path name entry ∧ change (name, entry) = some result := by
  rw [List.mem_filterMap]
  constructor
  · rintro ⟨⟨name, entry⟩, listed, changed⟩
    cases listing : disk.list? path with
    | none =>
        rw [listing] at listed
        cases listed
    | some entries =>
        rw [listing] at listed
        exact ⟨name, entry, ⟨entries, listing, listed⟩, changed⟩
  · rintro ⟨name, entry, ⟨entries, listing, listed⟩, changed⟩
    rw [listing]
    exact ⟨(name, entry), listed, changed⟩

/-- A directory lists what lies under its names and one more. -/
theorem lists_iff {path name : Text} {entry : Entry} :
    disk.Lists path name entry ↔ disk.isDirectory path ∧ Path.IsName name ∧
      disk.entry? (Path.ofNames (disk.names path ++ [name])) = some entry := by
  have areNames : ∀ other ∈ disk.names path, Path.IsName other :=
    fun _ mem => (disk.isName_of_mem_names mem).2
  have found : ∀ {entries}, disk.list? path = some entries → Path.IsName name →
      ((name, entry) ∈ entries ↔
        disk.entry? (Path.ofNames (disk.names path ++ [name])) = some entry) := by
    intro entries listing isName
    have reached := walk?_names (disk.entry?_of_list? listing)
    rw [entry?_ofNames_iff (List.concat_ne_nil name _)
      (isName_of_mem_names_append (List.forall_mem_singleton.mpr isName)),
      Entry.walk?_concat_iff areNames isName, reached]
    constructor
    · exact fun mem => ⟨entries, rfl, Entry.find?_of_mem (disk.sound_of_list? listing) mem⟩
    · rintro ⟨_, ⟨⟩, listed⟩
      exact Entry.mem_of_find? listed
  constructor
  · rintro ⟨entries, listing, mem⟩
    have isName := (disk.isName_of_list? listing mem).1
    exact ⟨isDirectory_iff.mpr ⟨entries, disk.entry?_of_list? listing⟩, isName,
      (found listing isName).mp mem⟩
  · rintro ⟨isDirectory, isName, present⟩
    obtain ⟨entries, here⟩ := disk.exists_of_isDirectory isDirectory
    have listing := disk.list?_of_entry? here
    exact ⟨entries, listing, (found listing isName).mpr present⟩

/-- On a plain disk the path that is built for an entry is the path of its names. -/
theorem joinParts_of_lists (rootPlain : disk.root.isPlain) {path name : Text} {entry : Entry}
    (forward : Path.IsForward path) (lists : disk.Lists path name entry) :
    Path.joinParts [path, name] = Path.ofNames (disk.names path ++ [name]) ∧
      Path.Plain (disk.names path ++ [name]) := by
  obtain ⟨entries, listing, mem⟩ := lists
  obtain ⟨isName, plain⟩ := disk.isName_of_list? listing mem
  exact ⟨disk.joinParts_of_isAbsolute forward.absolute forward.noBackslash isName (plain rootPlain),
    (disk.plain_names forward.absolute forward.noBackslash).concat isName (plain rootPlain)⟩

end Disk

end Crossref

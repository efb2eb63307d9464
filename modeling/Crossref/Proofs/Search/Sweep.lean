import Mathlib.Data.List.Perm.Subperm
import Mathlib.Logic.Function.Iterate
import Mathlib.Logic.Relation
import Crossref.Proofs.Disk.Position

/-! A search as a loop over a list of pending paths. Each round takes the path that was put on the list
last and puts the directories there on it. The rounds come to an end if and only if no directory that
is entered leads back to itself, and then they have found what the search finds. -/

set_option autoImplicit false

namespace Crossref

open Relation (ReflTransGen TransGen)

/-- The paths still to take, the next one first, those taken so far in their order, and the files that
were found there. -/
structure Sweep where
  pending : List Text
  taken : List Text
  found : List Text
deriving DecidableEq

namespace Sweep

/-- Where a search goes on for an entry of the directory at a path. -/
def entered? (excluded : List Text) (path : Text) : Text × Entry → Option Text
  | (_, .file _) => none
  | (name, .directory _) =>
    if excluded.contains name then none else some (Path.joinParts [path, name])

/-- The file that a search takes from an entry of the directory at a path. -/
def accepted? (accept : Text → Bool) (path : Text) : Text × Entry → Option Text
  | (name, .file _) => if accept name then some (Path.joinParts [path, name]) else none
  | (_, .directory _) => none

variable (disk : Disk) (accept : Text → Bool) (excluded : List Text)

def entered (path : Text) : List Text :=
  ((disk.list? path).getD []).filterMap (entered? excluded path)

def accepted (path : Text) : List Text :=
  ((disk.list? path).getD []).filterMap (accepted? accept path)

def start (root : Text) : Sweep := ⟨[disk.canonical root], [], []⟩

def step (sweep : Sweep) : Sweep :=
  match sweep.pending with
  | [] => sweep
  | path :: rest =>
    { pending := (entered disk excluded path).reverse ++ rest
      taken := sweep.taken ++ [path]
      found := sweep.found ++ accepted disk accept path }

/-- A search from a directory after some rounds. -/
def after (root : Text) (rounds : Nat) : Sweep := (step disk accept excluded)^[rounds] (start disk root)

/-- A search that takes a path enters another one from there. -/
def Enters (path below : Text) : Prop := below ∈ entered disk excluded path

/-- No path that a search enters from this one leads back to itself. -/
def NeverLeadsBack (path : Text) : Prop :=
  ∀ below, ReflTransGen (Enters disk excluded) path below →
    ¬ TransGen (Enters disk excluded) below below

/-- Taking what is pending, and all that is entered from there, takes these paths in their order. -/
inductive Drains : List Text → List Text → Prop
  | done : Drains [] []
  | take {path : Text} {rest taken : List Text} :
      Drains ((entered disk excluded path).reverse ++ rest) taken → Drains (path :: rest) (path :: taken)

section Rounds

variable {disk accept excluded} {pending others taken further : List Text}

theorem Drains.append (drains : Drains disk excluded pending taken)
    (behind : Drains disk excluded others further) :
    Drains disk excluded (pending ++ others) (taken ++ further) := by
  induction drains with
  | done => exact behind
  | take _ ih =>
      rw [List.append_assoc] at ih
      exact .take ih

theorem Drains.single {path : Text} (below : Drains disk excluded (entered disk excluded path).reverse taken) :
    Drains disk excluded [path] (path :: taken) := by
  rw [← List.append_nil (entered disk excluded path).reverse] at below
  exact .take below

/-- What drains is drained by some number of rounds. -/
theorem Drains.exists_rounds (drains : Drains disk excluded pending taken) (before found : List Text) :
    ∃ rounds, (step disk accept excluded)^[rounds] ⟨pending, before, found⟩ =
      ⟨[], before ++ taken, found ++ taken.flatMap (accepted disk accept)⟩ := by
  induction drains generalizing before found with
  | done => exact ⟨0, by simp⟩
  | @take path rest taken _ ih =>
      obtain ⟨rounds, ends⟩ := ih (before ++ [path]) (found ++ accepted disk accept path)
      refine ⟨rounds + 1, ends.trans ?_⟩
      rw [List.append_assoc, List.append_assoc, List.flatMap_cons, List.singleton_append]

/-- Rounds that leave nothing pending have drained what was pending. -/
theorem drains_of_iterate {rounds : Nat} {sweep : Sweep}
    (ends : ((step disk accept excluded)^[rounds] sweep).pending = []) :
    ∃ taken, Drains disk excluded sweep.pending taken ∧
      (step disk accept excluded)^[rounds] sweep =
        ⟨[], sweep.taken ++ taken, sweep.found ++ taken.flatMap (accepted disk accept)⟩ := by
  induction rounds generalizing sweep with
  | zero =>
      obtain ⟨pending, before, found⟩ := sweep
      cases ends
      exact ⟨[], .done, by simp⟩
  | succ rounds ih =>
      rw [Function.iterate_succ_apply] at ends ⊢
      obtain ⟨taken, drains, reached⟩ := ih ends
      obtain ⟨pending, before, found⟩ := sweep
      cases pending with
      | nil => exact ⟨taken, drains, reached⟩
      | cons path rest =>
          refine ⟨path :: taken, .take drains, reached.trans ?_⟩
          simp [step]

theorem Drains.unique (drains : Drains disk excluded pending taken)
    (again : Drains disk excluded pending further) : taken = further := by
  induction drains generalizing further with
  | done => cases again; rfl
  | take _ ih =>
      cases again with
      | take behind => rw [ih behind]

/-- What is taken is what can be entered from a pending path. -/
theorem Drains.mem_iff (drains : Drains disk excluded pending taken) {path : Text} :
    path ∈ taken ↔ ∃ first ∈ pending, ReflTransGen (Enters disk excluded) first path := by
  induction drains with
  | done => simp
  | @take current rest taken _ ih =>
      rw [List.mem_cons, ih, List.exists_mem_cons_iff]
      constructor
      · rintro (rfl | ⟨first, listed, reached⟩)
        · exact .inl .refl
        · rcases List.mem_append.mp listed with below | behind
          · exact .inl (.head (List.mem_reverse.mp below) reached)
          · exact .inr ⟨first, behind, reached⟩
      · rintro (reached | ⟨first, behind, reached⟩)
        · rcases reached.cases_head with rfl | ⟨below, enters, further⟩
          · exact .inl rfl
          · exact .inr ⟨below, List.mem_append_left _ (List.mem_reverse.mpr enters), further⟩
        · exact .inr ⟨first, List.mem_append_right _ behind, reached⟩

/-- Only finitely many paths are entered in a chain from what drains. -/
theorem Drains.acc (drains : Drains disk excluded pending taken) :
    ∀ path ∈ pending, Acc (flip (Enters disk excluded)) path := by
  induction drains with
  | done => exact List.forall_mem_nil _
  | take _ ih =>
      refine List.forall_mem_cons.mpr ⟨⟨_, fun below enters => ?_⟩, fun path behind => ?_⟩
      · exact ih below (List.mem_append_left _ (List.mem_reverse.mpr enters))
      · exact ih path (List.mem_append_right _ behind)

theorem no_cycle_of_acc {path : Text} (finite : Acc (flip (Enters disk excluded)) path) :
    ¬ TransGen (Enters disk excluded) path path := by
  induction finite with
  | intro path _ ih =>
      intro cycle
      obtain ⟨below, enters, back⟩ := TransGen.head'_iff.mp cycle
      exact ih below enters (.tail' back enters)

theorem Drains.neverLeadsBack {path : Text} (drains : Drains disk excluded [path] taken) :
    NeverLeadsBack disk excluded path := by
  intro below reached
  have finite : Acc (flip (Enters disk excluded)) below := by
    induction reached with
    | refl => exact drains.acc path List.mem_cons_self
    | tail _ enters ih => exact ih.inv enters
  exact no_cycle_of_acc finite

end Rounds

section Search

variable {disk accept excluded} {depth : Nat} {path : Text}

/-- What a search finds at an entry is the file there, or lies in what it enters there. -/
theorem drains_of_filesAt? {listed : Text × Entry} {part : List Text}
    (deeper : ∀ {below files}, disk.filesBelow? accept excluded depth below = some files →
      ∃ taken, Drains disk excluded [below] taken ∧ files.Perm (taken.flatMap (accepted disk accept)))
    (answered : disk.filesAt? accept excluded depth path listed = some part) :
    ∃ taken, Drains disk excluded (entered? excluded path listed).toList taken ∧
      part.Perm ((accepted? accept path listed).toList ++ taken.flatMap (accepted disk accept)) := by
  obtain ⟨name, entry⟩ := listed
  cases entry with
  | file text =>
      cases answered
      refine ⟨[], .done, ?_⟩
      rw [accepted?]
      split
      · exact .refl _
      · exact .nil
  | directory inner =>
      simp only [Disk.filesAt?] at answered
      rw [entered?]
      split at answered
      · next skipped =>
          cases answered
          rw [if_pos skipped]
          exact ⟨[], .done, .nil⟩
      · next enters =>
          rw [if_neg enters]
          exact deeper answered

theorem drains_of_mapM {entries : List (Text × Entry)} {parts : List (List Text)}
    (deeper : ∀ {below files}, disk.filesBelow? accept excluded depth below = some files →
      ∃ taken, Drains disk excluded [below] taken ∧ files.Perm (taken.flatMap (accepted disk accept)))
    (mapped : entries.mapM (disk.filesAt? accept excluded depth path) = some parts) :
    ∃ taken, Drains disk excluded (entries.filterMap (entered? excluded path)).reverse taken ∧
      parts.flatten.Perm
        (entries.filterMap (accepted? accept path) ++ taken.flatMap (accepted disk accept)) := by
  rw [List.filterMap_eq_flatMap_toList, List.filterMap_eq_flatMap_toList]
  induction entries generalizing parts with
  | nil =>
      cases mapped
      exact ⟨[], .done, .nil⟩
  | cons listed rest ih =>
      rw [List.mapM_cons] at mapped
      obtain ⟨part, answered, behind⟩ := Option.bind_eq_some_iff.mp mapped
      obtain ⟨others, restMapped, same⟩ := Option.bind_eq_some_iff.mp behind
      cases same
      obtain ⟨inside, drainsInside, foundInside⟩ := drains_of_filesAt? deeper answered
      obtain ⟨taken, drains, found⟩ := ih restMapped
      have single : (entered? excluded path listed).toList.reverse =
          (entered? excluded path listed).toList := by
        cases entered? excluded path listed <;> rfl
      refine ⟨taken ++ inside, ?_, ?_⟩
      · rw [List.flatMap_cons, List.reverse_append, single]
        exact drains.append drainsInside
      · rw [List.flatten_cons, List.flatMap_cons, List.flatMap_append]
        refine (foundInside.append found).trans ?_
        rw [List.append_assoc, List.append_assoc]
        refine .append_left _ (List.perm_append_comm.trans ?_)
        rw [List.append_assoc]

/-- Where a search comes to an end, the rounds do too, and they find the same files. -/
theorem drains_of_filesBelow? {files : List Text}
    (searched : disk.filesBelow? accept excluded depth path = some files) :
    ∃ taken, Drains disk excluded [path] taken ∧
      files.Perm (taken.flatMap (accepted disk accept)) := by
  induction depth generalizing path files with
  | zero => cases searched
  | succ depth ih =>
      rw [Disk.filesBelow?_succ] at searched
      split at searched
      · next absent =>
          cases searched
          refine ⟨[path], .single ?_, ?_⟩
          · rw [entered, absent]
            exact .done
          · simp [accepted, absent]
      · next entries listing =>
          obtain ⟨parts, mapped, rfl⟩ := Option.map_eq_some_iff.mp searched
          obtain ⟨taken, drains, found⟩ := drains_of_mapM ih mapped
          refine ⟨path :: taken, .single ?_, ?_⟩
          · rw [entered, listing]
            exact drains
          · rw [List.flatMap_cons, accepted, listing]
            exact found

end Search

section Depth

variable {disk accept excluded} {path below file : Text}

theorem mem_entered_iff :
    below ∈ entered disk excluded path ↔ ∃ name inner, disk.Lists path name (.directory inner) ∧
      name ∉ excluded ∧ below = Path.joinParts [path, name] := by
  rw [entered, Disk.mem_filterMap_list?_iff]
  constructor
  · rintro ⟨name, entry, lists, enters⟩
    cases entry with
    | file text => cases enters
    | directory inner =>
        obtain ⟨kept, joined⟩ := Option.ite_none_left_eq_some.mp enters
        exact ⟨name, inner, lists, fun skipped => kept (List.contains_iff_mem.mpr skipped),
          (Option.some.inj joined).symm⟩
  · rintro ⟨name, inner, lists, kept, rfl⟩
    exact ⟨name, _, lists, if_neg fun skipped => kept (List.contains_iff_mem.mp skipped)⟩

theorem mem_accepted_iff :
    file ∈ accepted disk accept path ↔ ∃ name text, disk.Lists path name (.file text) ∧
      accept name ∧ file = Path.joinParts [path, name] := by
  rw [accepted, Disk.mem_filterMap_list?_iff]
  constructor
  · rintro ⟨name, entry, lists, takes⟩
    cases entry with
    | directory inner => cases takes
    | file text =>
        obtain ⟨taken, joined⟩ := Option.ite_none_right_eq_some.mp takes
        exact ⟨name, text, lists, taken, (Option.some.inj joined).symm⟩
  · rintro ⟨name, text, lists, taken, rfl⟩
    exact ⟨name, _, lists, if_pos taken⟩

theorem isDirectory_of_enters (enters : Enters disk excluded path below) : disk.isDirectory path := by
  obtain ⟨name, inner, lists, _⟩ := mem_entered_iff.mp enters
  exact (Disk.lists_iff.mp lists).1

theorem isAbsolute_of_enters (absolute : Path.isAbsolute path)
    (enters : Enters disk excluded path below) : Path.isAbsolute below := by
  obtain ⟨name, inner, lists, _, rfl⟩ := mem_entered_iff.mp enters
  exact Path.isAbsolute_joinParts absolute (Disk.lists_iff.mp lists).2.1

/-- Directories with the same names are left for the same paths, however they are spelled. -/
theorem enters_of_names_eq {other : Text} (absolute : Path.isAbsolute path)
    (otherAbsolute : Path.isAbsolute other) (isDirectory : disk.isDirectory other)
    (same : disk.names other = disk.names path) (enters : Enters disk excluded path below) :
    Enters disk excluded other below := by
  obtain ⟨name, inner, lists, kept, rfl⟩ := mem_entered_iff.mp enters
  obtain ⟨_, isName, found⟩ := Disk.lists_iff.mp lists
  refine mem_entered_iff.mpr ⟨name, inner, Disk.lists_iff.mpr ⟨isDirectory, isName, ?_⟩, kept, ?_⟩
  · rwa [same]
  · rw [Path.joinParts, Path.joinParts, Path.join_child absolute isName,
      Path.join_child otherAbsolute isName, ← disk.names_of_isAbsolute absolute,
      ← disk.names_of_isAbsolute otherAbsolute, same]

/-- A search passes the directory of some names on its way to a path. -/
def Passes (disk : Disk) (excluded : List Text) (position : List Text) (path : Text) : Prop :=
  ∃ other, disk.names other = position ∧ Path.isAbsolute other ∧
    TransGen (Enters disk excluded) other path

theorem Passes.enters {position : List Text} (passes : Passes disk excluded position path)
    (enters : Enters disk excluded path below) : Passes disk excluded position below := by
  obtain ⟨other, same, absolute, leads⟩ := passes
  exact ⟨other, same, absolute, leads.tail enters⟩

theorem Passes.mem_positions {position : List Text} (passes : Passes disk excluded position path) :
    position ∈ disk.root.positions := by
  obtain ⟨other, rfl, _, leads⟩ := passes
  obtain ⟨first, enters, _⟩ := TransGen.head'_iff.mp leads
  obtain ⟨entries, found⟩ := disk.exists_of_isDirectory (isDirectory_of_enters enters)
  exact Disk.names_mem_positions (disk.list?_of_entry? found)

/-- A directory that was passed under its names would lead back. -/
theorem not_passes_self (neverBack : NeverLeadsBack disk excluded path) (absolute : Path.isAbsolute path)
    (isDirectory : disk.isDirectory path) : ¬ Passes disk excluded (disk.names path) path := by
  rintro ⟨other, same, otherAbsolute, leads⟩
  obtain ⟨first, enters, back⟩ := TransGen.head'_iff.mp leads
  have again := enters_of_names_eq otherAbsolute absolute isDirectory same.symm enters
  exact neverBack path .refl (.head' again back)

theorem NeverLeadsBack.enters (neverBack : NeverLeadsBack disk excluded path)
    (enters : Enters disk excluded path below) : NeverLeadsBack disk excluded below :=
  fun further reached => neverBack further (.head enters reached)

theorem isSome_mapM {α β : Type} {change : α → Option β} {items : List α}
    (answers : ∀ item ∈ items, (change item).isSome) : (items.mapM change).isSome := by
  induction items with
  | nil => rfl
  | cons item rest ih =>
      obtain ⟨first, others⟩ := List.forall_mem_cons.mp answers
      obtain ⟨result, changed⟩ := Option.isSome_iff_exists.mp first
      obtain ⟨results, mapped⟩ := Option.isSome_iff_exists.mp (ih others)
      rw [List.mapM_cons, changed, mapped]
      rfl

/-- The directories `above` a path that were passed on the way to it have different positions, so there
are no more of them than directories in the tree. -/
theorem isSome_filesBelow? {above : List (List Text)} {depth : Nat} (absolute : Path.isAbsolute path)
    (neverBack : NeverLeadsBack disk excluded path) (distinct : above.Nodup)
    (passed : ∀ position ∈ above, Passes disk excluded position path)
    (deep : disk.root.directoryCount < above.length + depth) :
    (disk.filesBelow? accept excluded depth path).isSome := by
  induction depth generalizing path above with
  | zero =>
      have known : above ⊆ disk.root.positions := fun position mem => (passed position mem).mem_positions
      have few := (List.subperm_of_subset distinct known).length_le
      rw [Entry.length_positions] at few
      omega
  | succ depth ih =>
      rw [Disk.filesBelow?_succ]
      cases listing : disk.list? path with
      | none => rfl
      | some entries =>
          have isDirectory := Disk.isDirectory_iff.mpr ⟨entries, disk.entry?_of_list? listing⟩
          have fresh : disk.names path ∉ above :=
            fun mem => not_passes_self neverBack absolute isDirectory (passed _ mem)
          have deeper : ∀ {below}, Enters disk excluded path below →
              (disk.filesBelow? accept excluded depth below).isSome := by
            intro below enters
            refine ih (isAbsolute_of_enters absolute enters) (neverBack.enters enters)
              (List.nodup_cons.mpr ⟨fresh, distinct⟩) (List.forall_mem_cons.mpr ⟨?_, ?_⟩) ?_
            · exact ⟨path, rfl, absolute, .single enters⟩
            · exact fun position mem => (passed position mem).enters enters
            · rw [List.length_cons]
              omega
          rw [Option.isSome_map]
          refine isSome_mapM fun listed mem => ?_
          obtain ⟨name, entry⟩ := listed
          cases entry with
          | file text => rfl
          | directory inner =>
              simp only [Disk.filesAt?]
              split
              · rfl
              · next kept =>
                  exact deeper (mem_entered_iff.mpr ⟨name, inner, ⟨entries, listing, mem⟩,
                    fun skipped => kept (List.contains_iff_mem.mpr skipped), rfl⟩)

/-- A search that never leads back comes to an end. -/
theorem exists_drains (accept : Text → Bool) (absolute : Path.isAbsolute path)
    (neverBack : NeverLeadsBack disk excluded path) :
    ∃ files taken,
      disk.filesBelow? accept excluded (disk.root.directoryCount + 1) path = some files ∧
        Drains disk excluded [path] taken ∧ files.Perm (taken.flatMap (accepted disk accept)) := by
  have ends : (disk.filesBelow? accept excluded (disk.root.directoryCount + 1) path).isSome :=
    isSome_filesBelow? absolute neverBack List.nodup_nil (List.forall_mem_nil _) (by simp)
  obtain ⟨files, searched⟩ := Option.isSome_iff_exists.mp ends
  obtain ⟨taken, drains, found⟩ := drains_of_filesBelow? searched
  exact ⟨files, taken, searched, drains, found⟩

/-- The rounds end if and only if no directory that is entered leads back to itself. -/
theorem ends_iff (accept : Text → Bool) (root : Text) :
    (∃ rounds, (after disk accept excluded root rounds).pending = []) ↔
      NeverLeadsBack disk excluded (disk.canonical root) := by
  constructor
  · rintro ⟨rounds, ends⟩
    obtain ⟨taken, drains, _⟩ := drains_of_iterate ends
    exact drains.neverLeadsBack
  · intro neverBack
    obtain ⟨_, taken, _, drains, _⟩ :=
      exists_drains accept (disk.isForward_canonical root).absolute neverBack
    obtain ⟨rounds, ends⟩ := drains.exists_rounds [] []
    exact ⟨rounds, congrArg pending ends⟩

/-- A search finds the accepted files of what is taken. -/
theorem findFiles_eq_sort {root : Text} {taken : List Text}
    (drains : Drains disk excluded [disk.canonical root] taken) :
    disk.findFiles root accept excluded = Text.sort (taken.flatMap (accepted disk accept)) := by
  obtain ⟨files, again, searched, drainsAgain, found⟩ :=
    exists_drains accept (disk.isForward_canonical root).absolute drains.neverLeadsBack
  cases drains.unique drainsAgain
  rw [Disk.findFiles, searched, Option.getD_some, Text.sort_eq_of_perm found]

end Depth

end Sweep

end Crossref

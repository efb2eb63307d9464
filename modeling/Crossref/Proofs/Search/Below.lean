import Mathlib.Data.List.Induction
import Crossref.Proofs.Search.Sweep

/-! A search on a plain disk goes down only. It comes to an end, and it takes the directories below its
start, each of them once, and nothing else. -/

set_option autoImplicit false

namespace Crossref

open Relation (ReflTransGen TransGen)

namespace Sweep

section Plain

variable {disk : Disk} {excluded : List Text} {path below : Text}

theorem enters_iff (rootPlain : disk.root.isPlain) (forward : Path.IsForward path) :
    Enters disk excluded path below ↔ ∃ name inner, disk.Lists path name (.directory inner) ∧
      name ∉ excluded ∧ below = Path.ofNames (disk.names path ++ [name]) := by
  rw [Enters, mem_entered_iff]
  refine exists_congr fun name => exists_congr fun inner => and_congr_right fun lists => ?_
  rw [(Disk.joinParts_of_lists rootPlain forward lists).1]

/-- Some names lead a search down from a path to another one. -/
structure LeadsDown (disk : Disk) (excluded : List Text) (path : Text) (front : List Text)
    (below : Text) : Prop where
  forward : Path.IsForward below
  kept : ∀ name ∈ front, Path.IsName name ∧ name ∉ excluded
  names_eq : disk.names below = disk.names path ++ front
  place : front = [] ∧ below = path ∨ front ≠ [] ∧ disk.isDirectory path ∧
    below = Path.ofNames (disk.names below) ∧ disk.isDirectory below

theorem LeadsDown.refl (forward : Path.IsForward path) : LeadsDown disk excluded path [] path where
  forward := forward
  kept := List.forall_mem_nil _
  names_eq := (List.append_nil _).symm
  place := .inl ⟨rfl, rfl⟩

theorem LeadsDown.of_enters (rootPlain : disk.root.isPlain) (forward : Path.IsForward path)
    (enters : Enters disk excluded path below) : ∃ name, LeadsDown disk excluded path [name] below := by
  obtain ⟨name, inner, lists, kept, rfl⟩ := (enters_iff rootPlain forward).mp enters
  obtain ⟨_, plain⟩ := Disk.joinParts_of_lists rootPlain forward lists
  obtain ⟨isDirectory, isName, found⟩ := Disk.lists_iff.mp lists
  have names := disk.names_ofNames plain
  exact ⟨name, Path.isForward_ofNames plain, List.forall_mem_singleton.mpr ⟨isName, kept⟩, names,
    .inr ⟨List.cons_ne_nil _ _, isDirectory, by rw [names], Disk.isDirectory_iff.mpr ⟨inner, found⟩⟩⟩

theorem LeadsDown.trans {middle : Text} {front back : List Text}
    (first : LeadsDown disk excluded path front middle)
    (second : LeadsDown disk excluded middle back below) :
    LeadsDown disk excluded path (front ++ back) below where
  forward := second.forward
  kept := List.forall_mem_append.mpr ⟨first.kept, second.kept⟩
  names_eq := by rw [second.names_eq, first.names_eq, List.append_assoc]
  place := by
    rcases first.place with ⟨rfl, rfl⟩ | ⟨nonempty, isDirectory, firstEnds⟩
    · exact second.place
    · rcases second.place with ⟨rfl, rfl⟩ | ⟨_, _, secondEnds⟩
      · rw [List.append_nil]
        exact first.place
      · exact .inr ⟨List.append_ne_nil_of_left_ne_nil nonempty back, isDirectory, secondEnds⟩

/-- Whatever a search reaches on a plain disk lies below. -/
theorem LeadsDown.of_reaches (rootPlain : disk.root.isPlain) (forward : Path.IsForward path)
    (reached : ReflTransGen (Enters disk excluded) path below) :
    ∃ front, LeadsDown disk excluded path front below := by
  induction reached with
  | refl => exact ⟨[], .refl forward⟩
  | tail _ enters ih =>
      obtain ⟨front, leads⟩ := ih
      obtain ⟨name, last⟩ := LeadsDown.of_enters rootPlain leads.forward enters
      exact ⟨front ++ [name], leads.trans last⟩

/-- What a search enters, and all that it reaches from there, has longer names. -/
theorem LeadsDown.length_lt {first : Text} (rootPlain : disk.root.isPlain) (forward : Path.IsForward path)
    (enters : Enters disk excluded path first)
    (reached : ReflTransGen (Enters disk excluded) first below) :
    (disk.names path).length < (disk.names below).length := by
  obtain ⟨name, down⟩ := LeadsDown.of_enters rootPlain forward enters
  obtain ⟨front, further⟩ := LeadsDown.of_reaches rootPlain down.forward reached
  rw [(down.trans further).names_eq, List.length_append, List.length_append, List.length_singleton]
  omega

theorem neverLeadsBack_of_isPlain (rootPlain : disk.root.isPlain) (forward : Path.IsForward path) :
    NeverLeadsBack disk excluded path := by
  intro below reached cycle
  obtain ⟨front, leads⟩ := LeadsDown.of_reaches rootPlain forward reached
  obtain ⟨first, enters, back⟩ := TransGen.head'_iff.mp cycle
  exact Nat.lt_irrefl _ (LeadsDown.length_lt rootPlain leads.forward enters back)

/-- Directories below a directory are reached, unless an excluded one lies on the way. -/
theorem reaches_ofNames (rootPlain : disk.root.isPlain) (forward : Path.IsForward path)
    (isDirectory : disk.isDirectory path) {front : List Text} (nonempty : front ≠ [])
    (kept : ∀ name ∈ front, Path.IsName name ∧ name ∉ excluded)
    (belowDirectory : disk.isDirectory (Path.ofNames (disk.names path ++ front))) :
    ReflTransGen (Enters disk excluded) path (Path.ofNames (disk.names path ++ front)) := by
  induction front using List.reverseRecOn with
  | nil => exact absurd rfl nonempty
  | append_singleton front name ih =>
      obtain ⟨frontKept, lastKept⟩ := List.forall_mem_append.mp kept
      obtain ⟨isName, nameKept⟩ := lastKept name List.mem_cons_self
      obtain ⟨inner, found⟩ := disk.exists_of_isDirectory belowDirectory
      rw [← List.append_assoc] at found ⊢
      by_cases first : front = []
      · subst first
        rw [List.append_nil] at found ⊢
        exact .single ((enters_iff rootPlain forward).mpr
          ⟨name, inner, Disk.lists_iff.mpr ⟨isDirectory, isName, found⟩, nameKept, rfl⟩)
      · obtain ⟨middleDirectory, plain⟩ := Disk.directory_of_entry? rootPlain first
          (fun other mem => (frontKept other mem).1) isName found
        have names := disk.names_ofNames plain
        refine (ih first frontKept middleDirectory).tail
          ((enters_iff rootPlain (Path.isForward_ofNames plain)).mpr ⟨name, inner, ?_, nameKept, ?_⟩)
        · exact Disk.lists_iff.mpr ⟨middleDirectory, isName, by rwa [names]⟩
        · rw [names]

/-- Neither of two positions lies at or below the other one. -/
def Apart (first second : List Text) : Prop := ¬ first <+: second ∧ ¬ second <+: first

theorem Apart.symm {first second : List Text} (apart : Apart first second) : Apart second first :=
  And.symm apart

theorem apart_concat (front : List Text) {first second : Text} (differs : first ≠ second) :
    Apart (front ++ [first]) (front ++ [second]) := by
  constructor
  · intro starts
    exact differs (List.cons_prefix_cons.mp ((List.prefix_append_right_inj front).mp starts)).1
  · intro starts
    exact differs (List.cons_prefix_cons.mp ((List.prefix_append_right_inj front).mp starts)).1.symm

theorem Apart.concat_left {first second : List Text} (apart : Apart first second) (name : Text) :
    Apart (first ++ [name]) second := by
  constructor
  · exact fun starts => apart.1 ((List.prefix_append first [name]).trans starts)
  · intro starts
    rcases List.prefix_concat_iff.mp starts with rfl | shorter
    · exact apart.1 (List.prefix_append first [name])
    · exact apart.2 shorter

/-- The directories that are entered from a path stand apart. -/
theorem pairwise_entered (rootPlain : disk.root.isPlain) (forward : Path.IsForward path) :
    (entered disk excluded path).Pairwise fun first second =>
      Apart (disk.names first) (disk.names second) := by
  cases listing : disk.list? path with
  | none =>
      rw [entered, listing]
      exact .nil
  | some entries =>
      have names : ∀ {name entry first}, (name, entry) ∈ entries →
          entered? excluded path (name, entry) = some first →
          disk.names first = disk.names path ++ [name] := by
        intro name entry first listed enters
        cases entry with
        | file text => cases enters
        | directory inner =>
            obtain ⟨_, joined⟩ := Option.ite_none_left_eq_some.mp enters
            obtain ⟨spelled, plain⟩ :=
              Disk.joinParts_of_lists rootPlain forward ⟨entries, listing, listed⟩
            rw [← Option.some.inj joined, spelled]
            exact disk.names_ofNames plain
      rw [entered, listing, Option.getD_some, List.pairwise_filterMap]
      have distinct := Entry.pairwise_of_isSoundIn (disk.sound_of_list? listing)
      refine distinct.imp_of_mem fun listed otherListed differs first enters second others => ?_
      rw [names listed enters, names otherListed others]
      exact apart_concat _ differs

/-- What is pending once the first path is taken stands apart if it did before. -/
theorem pairwise_pending (rootPlain : disk.root.isPlain) {rest : List Text} (forward : Path.IsForward path)
    (apart : (path :: rest).Pairwise fun first second => Apart (disk.names first) (disk.names second)) :
    ((entered disk excluded path).reverse ++ rest).Pairwise fun first second =>
      Apart (disk.names first) (disk.names second) := by
  obtain ⟨pathApart, restApart⟩ := List.pairwise_cons.mp apart
  refine List.pairwise_append.mpr ⟨?_, restApart, fun first mem second behind => ?_⟩
  · exact List.pairwise_reverse.mpr ((pairwise_entered rootPlain forward).imp Apart.symm)
  · obtain ⟨name, leads⟩ := LeadsDown.of_enters rootPlain forward (List.mem_reverse.mp mem)
    rw [leads.names_eq]
    exact (pathApart second behind).concat_left name

/-- On a plain disk no directory is taken twice. -/
theorem Drains.nodup (rootPlain : disk.root.isPlain) {pending taken : List Text}
    (drains : Drains disk excluded pending taken) (forward : ∀ path ∈ pending, Path.IsForward path)
    (apart : pending.Pairwise fun first second => Apart (disk.names first) (disk.names second)) :
    (taken.map disk.names).Nodup := by
  induction drains with
  | done => exact List.nodup_nil
  | @take path rest taken drains ih =>
      obtain ⟨pathForward, restForward⟩ := List.forall_mem_cons.mp forward
      have allForward : ∀ first ∈ (entered disk excluded path).reverse ++ rest, Path.IsForward first := by
        refine List.forall_mem_append.mpr ⟨fun first mem => ?_, restForward⟩
        obtain ⟨name, leads⟩ := LeadsDown.of_enters rootPlain pathForward (List.mem_reverse.mp mem)
        exact leads.forward
      rw [List.map_cons, List.nodup_cons]
      refine ⟨fun mem => ?_, ih allForward (pairwise_pending rootPlain pathForward apart)⟩
      obtain ⟨again, listed, same⟩ := List.mem_map.mp mem
      obtain ⟨first, isPending, reached⟩ := drains.mem_iff.mp listed
      rcases List.mem_append.mp isPending with entered | behind
      · have longer := LeadsDown.length_lt rootPlain pathForward (List.mem_reverse.mp entered) reached
        rw [same] at longer
        exact Nat.lt_irrefl _ longer
      · obtain ⟨front, leads⟩ := LeadsDown.of_reaches rootPlain (restForward first behind) reached
        have pathApart := (List.pairwise_cons.mp apart).1 first behind
        exact pathApart.2 ⟨front, leads.names_eq.symm.trans same⟩

/-- A directory below another one, where neither it nor a directory between them has an excluded name. -/
def IsDirectoryBelow (disk : Disk) (excluded : List Text) (top path : Text) : Prop :=
  ∃ front, front ≠ [] ∧ (∀ name ∈ front, Path.IsName name ∧ name ∉ excluded) ∧
    path = Path.ofNames (disk.names top ++ front) ∧ disk.isDirectory path

/-- What a search reaches on a plain disk are the directories below its start. -/
theorem reaches_iff (rootPlain : disk.root.isPlain) (forward : Path.IsForward path) :
    ReflTransGen (Enters disk excluded) path below ↔
      below = path ∨ disk.isDirectory path ∧ IsDirectoryBelow disk excluded path below := by
  constructor
  · intro reached
    obtain ⟨front, leads⟩ := LeadsDown.of_reaches rootPlain forward reached
    rcases leads.place with ⟨_, same⟩ | ⟨nonempty, isDirectory, spelled, belowDirectory⟩
    · exact .inl same
    · rw [leads.names_eq] at spelled
      exact .inr ⟨isDirectory, front, nonempty, leads.kept, spelled, belowDirectory⟩
  · rintro (rfl | ⟨isDirectory, front, nonempty, kept, rfl, belowDirectory⟩)
    · exact .refl
    · exact reaches_ofNames rootPlain forward isDirectory nonempty kept belowDirectory

/-- On a plain disk the rounds take the start and the directories below it. -/
theorem exists_drains_of_isPlain (rootPlain : disk.root.isPlain) (forward : Path.IsForward path) :
    ∃ taken, Drains disk excluded [path] taken ∧ (taken.map disk.names).Nodup ∧
      ∀ below, below ∈ taken ↔
        below = path ∨ disk.isDirectory path ∧ IsDirectoryBelow disk excluded path below := by
  obtain ⟨_, taken, _, drains, _⟩ :=
    exists_drains (fun _ => true) forward.absolute (neverLeadsBack_of_isPlain rootPlain forward)
  refine ⟨taken, drains, ?_, fun below => ?_⟩
  · exact drains.nodup rootPlain (List.forall_mem_singleton.mpr forward) (List.pairwise_singleton _ _)
  · rw [drains.mem_iff, ← reaches_iff rootPlain forward]
    simp

end Plain

/-- The rounds of a search come to an end unless it reaches a directory that leads back to itself, and
have then found what the search finds. Where no name holds a backslash they always end, and they take
the start and the directories below it, each of them once. -/
theorem ends_unless_directory_leads_back (disk : Disk) (accept : Text → Bool) (excluded : List Text)
    (root : Text) :
    ((∃ rounds, (after disk accept excluded root rounds).pending = []) ↔
      NeverLeadsBack disk excluded (disk.canonical root)) ∧
    (∀ rounds, (after disk accept excluded root rounds).pending = [] →
      disk.findFiles root accept excluded =
        Text.sort (after disk accept excluded root rounds).found) ∧
    (disk.root.isPlain → ∃ rounds, (after disk accept excluded root rounds).pending = [] ∧
      ((after disk accept excluded root rounds).taken.map disk.names).Nodup ∧
      ∀ path, path ∈ (after disk accept excluded root rounds).taken ↔
        path = disk.canonical root ∨ disk.isDirectory (disk.canonical root) ∧
          IsDirectoryBelow disk excluded (disk.canonical root) path) := by
  refine ⟨ends_iff accept root, fun rounds ends => ?_, fun rootPlain => ?_⟩
  · obtain ⟨taken, drains, reached⟩ := drains_of_iterate ends
    rw [findFiles_eq_sort drains, after, reached]
    rfl
  · obtain ⟨taken, drains, nodup, members⟩ :=
      exists_drains_of_isPlain rootPlain (disk.isForward_canonical root)
    obtain ⟨rounds, ends⟩ := drains.exists_rounds [] []
    have reached : after disk accept excluded root rounds =
        ⟨[], taken, taken.flatMap (accepted disk accept)⟩ := ends
    refine ⟨rounds, ?_⟩
    rw [reached]
    exact ⟨rfl, nodup, members⟩

/-- A directory in a directory, beside one of an excluded name. -/
theorem ends_unless_directory_leads_back_behind_excluded_name :
    let disk : Disk :=
      { root := .directory [("proj", .directory [("skip", .directory [("b", .directory [])]),
          ("a", .directory [("c", .directory [])])])]
        cwd := "/proj"
        sound := ⟨by decide⟩ }
    disk.root.isPlain ∧ ∃ rounds,
      (after disk (fun _ => true) ["skip"] "/proj" rounds).pending = [] ∧
        ((after disk (fun _ => true) ["skip"] "/proj" rounds).taken.map disk.names).Nodup ∧
        ("/proj/a/c" : Text) ∈ (after disk (fun _ => true) ["skip"] "/proj" rounds).taken := by
  intro disk
  obtain ⟨_, _, plain⟩ := ends_unless_directory_leads_back disk (fun _ => true) ["skip"] "/proj"
  obtain ⟨rounds, ends, nodup, members⟩ := plain rfl
  have top : disk.names (disk.canonical "/proj") = ["proj"] := by decide
  refine ⟨rfl, rounds, ends, nodup, (members _).mpr (.inr ⟨by decide, ["a", "c"], ?_⟩)⟩
  rw [top]
  refine ⟨List.cons_ne_nil _ _, fun name mem => ?_, by decide, by decide⟩
  rcases List.mem_pair.mp mem with rfl | rfl
  · exact ⟨⟨by decide, by decide, by decide, by decide⟩, by decide⟩
  · exact ⟨⟨by decide, by decide, by decide, by decide⟩, by decide⟩

/-- A backslash in a name becomes a slash, so a path may lead out of the directory that a search starts
from, lead to a directory that another path leads to, or lead back. -/
theorem search_may_leave_start_or_never_end :
    let tree (entries : List (Text × Entry)) : Entry :=
      .directory [("proj", .directory entries), ("out", .directory [])]
    let outside : Disk := { root := tree [("..\\out", .directory [])], cwd := "/proj", sound := ⟨by decide⟩ }
    let twice : Disk :=
      { root := tree [("a", .directory [("b", .directory [])]), ("a\\b", .directory [])]
        cwd := "/proj"
        sound := ⟨by decide⟩ }
    let endless : Disk := { root := tree [("\\", .directory [])], cwd := "/proj", sound := ⟨by decide⟩ }
    (∃ rounds, ∃ path ∈ (after outside (fun _ => true) [] "/proj" rounds).taken,
      ¬ outside.names "/proj" <+: outside.names path) ∧
    (∃ rounds, ¬ ((after twice (fun _ => true) [] "/proj" rounds).taken.map twice.names).Nodup) ∧
    ¬ ∃ rounds, (after endless (fun _ => true) [] "/proj" rounds).pending = [] := by
  intro tree outside twice endless
  refine ⟨⟨2, "/proj/../out", by decide, by decide⟩, ⟨4, by decide⟩, fun ends => ?_⟩
  have first : Enters endless [] "/proj" "/proj//" := by
    show _ ∈ _
    decide
  have back : Enters endless [] "/proj//" "/proj//" := by
    show _ ∈ _
    decide
  exact (ends_iff (fun _ => true) "/proj").mp ends "/proj//" (.single first) (.single back)

end Sweep

end Crossref

import Crossref.Disk.Search
import Crossref.Proofs.Disk
import Crossref.Proofs.Text.Units

/-! Searches find what exists. Names with backslashes make a search enter directories by paths with
dots; such a path leads where the names that remain of it lead, and so each file that is found exists
under the path that is given for it. -/

set_option autoImplicit false

namespace Crossref

/-- Each result of a mapping that succeeds is the result for an item. -/
theorem exists_of_mem_mapM {α β : Type} {change : α → Option β} {items : List α} {results : List β}
    (mapped : items.mapM change = some results) {result : β} (mem : result ∈ results) :
    ∃ item ∈ items, change item = some result := by
  induction items generalizing results with
  | nil =>
      cases mapped
      cases mem
  | cons item rest ih =>
      rw [List.mapM_cons] at mapped
      obtain ⟨first, changed, behind⟩ := Option.bind_eq_some_iff.mp mapped
      obtain ⟨others, restMapped, same⟩ := Option.bind_eq_some_iff.mp behind
      cases same
      rcases List.mem_cons.mp mem with rfl | later
      · exact ⟨item, List.mem_cons_self, changed⟩
      · obtain ⟨other, listed, answered⟩ := ih restMapped later
        exact ⟨other, List.mem_cons_of_mem _ listed, answered⟩

/-- Parts that are gathered for items with different names share nothing. -/
theorem nodup_flatten_of_mapM {α β γ : Type} {name : α → β} (owns : β → γ → Prop)
    (one : ∀ {first second result}, owns first result → owns second result → first = second)
    {change : α → Option (List γ)} {items : List α} {parts : List (List γ)}
    (mapped : items.mapM change = some parts)
    (distinct : items.Pairwise fun first second => name first ≠ name second)
    (owned : ∀ item ∈ items, ∀ part, change item = some part →
      part.Nodup ∧ ∀ result ∈ part, owns (name item) result) : parts.flatten.Nodup := by
  induction items generalizing parts with
  | nil =>
      cases mapped
      exact .nil
  | cons item rest ih =>
      rw [List.mapM_cons] at mapped
      obtain ⟨part, changed, behind⟩ := Option.bind_eq_some_iff.mp mapped
      obtain ⟨others, restMapped, same⟩ := Option.bind_eq_some_iff.mp behind
      cases same
      obtain ⟨differs, restDistinct⟩ := List.pairwise_cons.mp distinct
      obtain ⟨firstOwned, restOwned⟩ := List.forall_mem_cons.mp owned
      obtain ⟨partNodup, inPart⟩ := firstOwned part changed
      rw [List.flatten_cons]
      refine List.nodup_append.mpr ⟨partNodup, ih restMapped restDistinct restOwned, ?_⟩
      rintro result first _ second rfl
      obtain ⟨otherPart, isOther, inOther⟩ := List.mem_flatten.mp second
      obtain ⟨other, listed, answered⟩ := exists_of_mem_mapM restMapped isOther
      have otherOwns := (restOwned other listed otherPart answered).2 result inOther
      exact differs other listed (one (inPart result first) otherOwns)

namespace Entry

theorem pairwise_of_isSoundIn {entries : List (Text × Entry)} (sound : isSoundIn entries) :
    entries.Pairwise fun first second => first.1 ≠ second.1 := by
  induction entries with
  | nil => exact .nil
  | cons first rest ih =>
      obtain ⟨name, entry⟩ := first
      simp only [isSoundIn, Bool.and_eq_true, List.all_eq_true, decide_eq_true_eq] at sound
      obtain ⟨⟨⟨_, different⟩, _⟩, restSound⟩ := sound
      exact .cons (fun other mem => (different other mem).symm) (ih restSound)

variable {root here found : Entry} {above : List Entry} {position : List Text}

/-- A walk along the names of a position, nearest first, arrives at an entry through the directories
`above` it. -/
inductive Stands (root : Entry) : List Text → Entry → List Entry → Prop
  | start : Stands root [] root []
  | enter {position : List Text} {entries : List (Text × Entry)} {above : List Entry} {name : Text}
      {entry : Entry} : Stands root position (directory entries) above → Path.IsName name →
      find? name entries = some entry →
      Stands root (name :: position) entry (directory entries :: above)

theorem Stands.walk? (stands : Stands root position here above) (rest : List Text) :
    walk? root [] (position.reverse ++ rest) = walk? here above rest := by
  induction stands generalizing rest with
  | start => rfl
  | enter _ isName listed ih =>
      rw [List.reverse_cons, List.append_assoc, ih, List.singleton_append, walk?_cons isName, listed]
      rfl

/-- Walking on and following the same components move to the same place. -/
theorem Stands.follow {path : List Text} (stands : Stands root position here above)
    (cut : ∀ component ∈ path, '/' ∉ component) (walked : Entry.walk? here above path = some found) :
    ∃ above, Stands root (path.foldl (Path.follow false) position) found above := by
  induction path generalizing position here above with
  | nil =>
      cases walked
      exact ⟨above, stands⟩
  | cons component rest ih =>
      obtain ⟨firstCut, restCut⟩ := List.forall_mem_cons.mp cut
      cases here with
      | file text => cases walked
      | directory entries =>
          simp only [Entry.walk?] at walked
          rw [List.foldl_cons]
          split at walked
          · next stays =>
              rw [Bool.or_eq_true, decide_eq_true_eq, decide_eq_true_eq] at stays
              rw [Path.follow_of_stays stays]
              exact ih stands restCut walked
          · next moves =>
              rw [Bool.or_eq_true, decide_eq_true_eq, decide_eq_true_eq, not_or] at moves
              split at walked
              · next dots =>
                  rw [dots, Path.follow_dots]
                  cases stands with
                  | start => exact ih .start restCut walked
                  | enter outer _ _ => exact ih outer restCut walked
              · next noDots =>
                  have isName : Path.IsName component := ⟨moves.1, moves.2, noDots, firstCut⟩
                  rw [Path.follow_of_isName isName]
                  split at walked
                  · next entry listed => exact ih (stands.enter isName listed) restCut walked
                  · cases walked

/-- What components lead to is where the names that remain of them lead. -/
theorem walk?_resolveDots {path : List Text} (cut : ∀ component ∈ path, '/' ∉ component)
    (walked : walk? root [] path = some found) :
    walk? root [] (Path.resolveDots false path) = some found := by
  obtain ⟨above, stands⟩ := Stands.start.follow cut walked
  have arrives := stands.walk? []
  rw [List.append_nil] at arrives
  exact arrives

end Entry

namespace Disk

variable (disk : Disk)

/-- What an absolute path leads to is where its names lead. -/
theorem entry?_ofNames_names {path : Text} {entry : Entry} (absolute : Path.isAbsolute path)
    (found : disk.entry? path = some entry) :
    disk.entry? (Path.ofNames (disk.names path)) = some entry := by
  have walked := disk.walk?_of_entry? found
  rw [Path.absolute, if_pos absolute] at walked
  have cut : ∀ component ∈ Path.components path, '/' ∉ component :=
    fun _ listed slash => (Path.mem_of_mem_components listed slash).2 rfl
  have arrives := Entry.walk?_resolveDots cut walked
  rw [← disk.names_of_isAbsolute absolute] at arrives
  by_cases empty : disk.names path = []
  · -- the path leads back to the root, which is a directory because a slash was walked
    rw [empty] at arrives ⊢
    obtain ⟨behind, rfl⟩ := Path.exists_of_isAbsolute absolute
    have split : Path.components ('/' :: behind) = [] :: Path.components behind :=
      Path.components_append [] behind
    rw [split] at walked
    cases here : disk.root with
    | file text =>
        rw [here] at walked
        cases walked
    | directory entries =>
        rw [here] at arrives
        cases arrives
        simp only [Disk.entry?, here]
        rfl
  · have noNul : (Path.ofNames (disk.names path)).contains '\x00' = false := by
      refine Bool.eq_false_iff.mpr fun nul => ?_
      rcases Path.mem_ofNames (List.contains_iff_mem.mp nul) with slash | ⟨name, mem, present⟩
      · cases slash
      · have component := (disk.isName_of_mem_names mem).1
        rw [Path.absolute, if_pos absolute] at component
        exact disk.noNul_of_entry? found (Path.mem_of_mem_components component present).1
    rw [disk.entry?_ofNames empty fun _ mem => (disk.isName_of_mem_names mem).2, noNul]
    exact arrives

/-- A file that a search finds is listed by a directory that it enters. -/
theorem listed_of_mem_filesBelow? {accept : Text → Bool} {excluded : List Text} {depth : Nat}
    {path file : Text} {files : List Text} (absolute : Path.isAbsolute path) (noBackslash : '\\' ∉ path)
    (found : disk.filesBelow? accept excluded depth path = some files) (mem : file ∈ files) :
    ∃ directory entries name text, Path.isAbsolute directory ∧ '\\' ∉ directory ∧
      disk.list? directory = some entries ∧ (name, .file text) ∈ entries ∧ accept name ∧
      file = Path.joinParts [directory, name] := by
  induction depth generalizing path files with
  | zero => cases found
  | succ depth ih =>
      rw [filesBelow?] at found
      split at found
      · cases found
        cases mem
      · next entries listing =>
          obtain ⟨parts, mapped, rfl⟩ := Option.map_eq_some_iff.mp found
          obtain ⟨part, partMem, inPart⟩ := List.mem_flatten.mp mem
          obtain ⟨⟨name, entry⟩, listed, answered⟩ := exists_of_mem_mapM mapped partMem
          cases entry with
          | file text =>
              cases answered
              split at inPart
              · next accepted =>
                  exact ⟨path, entries, name, text, absolute, noBackslash, listing, listed, accepted,
                    List.mem_singleton.mp inPart⟩
              · cases inPart
          | directory inner =>
              dsimp only at answered
              split at answered
              · cases answered
                cases inPart
              · have isName := (disk.isName_of_list? listing listed).1
                exact ih (Path.isAbsolute_joinParts absolute isName) (Path.notMem_toForwardSlashes _)
                  answered inPart

/-- A file that is found by a name that paths keep lies under its names and can be read there. -/
theorem readText?_of_mem_findFiles {root name file : Text} {excluded : List Text}
    (isName : Path.IsName name) (plain : '\\' ∉ name)
    (found : file ∈ disk.findFiles root (fun other => other = name) excluded) :
    ∃ front, Path.Plain (front ++ [name]) ∧ file = Path.ofNames (front ++ [name]) ∧
      ∃ text, disk.readText? file = some text := by
  rw [findFiles, Text.mem_sort] at found
  cases searched : disk.filesBelow? (fun other => other = name) excluded
      (disk.root.directoryCount + 1) (disk.canonical root) with
  | none =>
      rw [searched] at found
      cases found
  | some files =>
      rw [searched, Option.getD_some] at found
      obtain ⟨directory, entries, other, text, absolute, noBackslash, listing, listed, accepted, rfl⟩ :=
        disk.listed_of_mem_filesBelow? (Path.isAbsolute_canonical disk.cwd root)
          (Path.notMem_toForwardSlashes _) searched found
      cases of_decide_eq_true accepted
      have namesPlain := disk.plain_names absolute noBackslash
      have reached := disk.entry?_ofNames_names absolute (disk.entry?_of_list? listing)
      have present := disk.entry?_of_mem (fun other mem => (namesPlain other mem).1)
        (disk.list?_of_entry? reached) listed
      refine ⟨disk.names directory, namesPlain.concat isName plain,
        disk.joinParts_of_isAbsolute absolute noBackslash isName plain, text, ?_⟩
      rw [disk.joinParts_of_isAbsolute absolute noBackslash isName plain, readText?, present]

section Distinct

variable {disk} {accept : Text → Bool} {excluded : List Text} {depth : Nat} {path : Text}

/-- What a search finds at an entry of a directory that it enters. -/
def filesAt? (disk : Disk) (accept : Text → Bool) (excluded : List Text) (depth : Nat) (path : Text)
    (listed : Text × Entry) : Option (List Text) :=
  match listed.2 with
  | .file _ => some (if accept listed.1 then [Path.joinParts [path, listed.1]] else [])
  | .directory _ =>
    if excluded.contains listed.1 then some []
    else disk.filesBelow? accept excluded depth (Path.joinParts [path, listed.1])

theorem filesBelow?_succ :
    disk.filesBelow? accept excluded (depth + 1) path =
      match disk.list? path with
      | none => some []
      | some entries =>
        (entries.mapM (disk.filesAt? accept excluded depth path)).map List.flatten := rfl

/-- The files that are found lie under some names, and none is found twice. -/
def FoundBelow (names : List Text) (files : List Text) : Prop :=
  files.Nodup ∧ ∀ file ∈ files, ∃ rest, Path.Plain (names ++ rest) ∧ file = Path.ofNames (names ++ rest)

theorem foundBelow_filesAt? (rootPlain : disk.root.isPlain) (absolute : Path.isAbsolute path)
    (noBackslash : '\\' ∉ path) {entries : List (Text × Entry)} (listing : disk.list? path = some entries)
    (deeper : ∀ {below : Text} {files : List Text}, Path.isAbsolute below → '\\' ∉ below →
      disk.filesBelow? accept excluded depth below = some files → FoundBelow (disk.names below) files)
    {listed : Text × Entry} (mem : listed ∈ entries) {part : List Text}
    (answered : disk.filesAt? accept excluded depth path listed = some part) :
    FoundBelow (disk.names path ++ [listed.1]) part := by
  obtain ⟨isName, plain⟩ := disk.isName_of_list? listing mem
  have joined := disk.joinParts_of_isAbsolute absolute noBackslash isName (plain rootPlain)
  have plainBelow := (disk.plain_names absolute noBackslash).concat isName (plain rootPlain)
  have nothing : FoundBelow (disk.names path ++ [listed.1]) [] :=
    ⟨List.nodup_nil, fun _ inPart => nomatch inPart⟩
  rw [filesAt?, joined] at answered
  split at answered
  · cases answered
    split
    · refine ⟨List.pairwise_singleton _ _, fun file inPart => ⟨[], ?_⟩⟩
      rw [List.append_nil]
      exact ⟨plainBelow, List.mem_singleton.mp inPart⟩
    · exact nothing
  · split at answered
    · cases answered
      exact nothing
    · have found := deeper rfl (Path.notMem_ofNames plainBelow) answered
      rwa [disk.names_ofNames plainBelow] at found

/-- On a plain disk a search finds files below the path only, and none of them twice. -/
theorem foundBelow_filesBelow? (rootPlain : disk.root.isPlain) {files : List Text}
    (absolute : Path.isAbsolute path) (noBackslash : '\\' ∉ path)
    (found : disk.filesBelow? accept excluded depth path = some files) :
    FoundBelow (disk.names path) files := by
  induction depth generalizing path files with
  | zero => cases found
  | succ depth ih =>
      rw [filesBelow?_succ] at found
      split at found
      · cases found
        exact ⟨List.nodup_nil, fun _ mem => nomatch mem⟩
      · next entries listing =>
          obtain ⟨parts, mapped, rfl⟩ := Option.map_eq_some_iff.mp found
          have parts : ∀ listed ∈ entries, ∀ part,
              disk.filesAt? accept excluded depth path listed = some part →
              FoundBelow (disk.names path ++ [listed.1]) part := fun listed mem part answered =>
            foundBelow_filesAt? rootPlain absolute noBackslash listing ih mem answered
          constructor
          · -- the name of the entry stands right behind those of the path
            let owns (name file : Text) : Prop := ∃ rest,
              Path.Plain (disk.names path ++ [name] ++ rest) ∧
                file = Path.ofNames (disk.names path ++ [name] ++ rest)
            refine nodup_flatten_of_mapM owns ?_ mapped
              (Entry.pairwise_of_isSoundIn (disk.sound_of_list? listing)) parts
            rintro first second file ⟨rest, plain, rfl⟩ ⟨other, otherPlain, same⟩
            have names := congrArg disk.names same
            rw [disk.names_ofNames plain, disk.names_ofNames otherPlain, List.append_assoc,
              List.append_assoc] at names
            exact (List.cons.inj (List.append_cancel_left names)).1
          · intro file mem
            obtain ⟨part, isPart, inPart⟩ := List.mem_flatten.mp mem
            obtain ⟨listed, listedMem, answered⟩ := exists_of_mem_mapM mapped isPart
            obtain ⟨rest, plain, spelled⟩ := (parts listed listedMem part answered).2 file inPart
            rw [List.append_assoc] at plain spelled
            exact ⟨_, plain, spelled⟩

end Distinct

/-- On a plain disk a search finds files in strictly ascending order. -/
theorem pairwise_findFiles (rootPlain : disk.root.isPlain) (root : Text) (accept : Text → Bool)
    (excluded : List Text) :
    (disk.findFiles root accept excluded).Pairwise fun first second =>
      Text.le first second ∧ first ≠ second := by
  have nodup : (disk.findFiles root accept excluded).Nodup := by
    rw [findFiles, Text.sort, (List.mergeSort_perm _ _).nodup_iff]
    cases searched : disk.filesBelow? accept excluded (disk.root.directoryCount + 1)
        (disk.canonical root) with
    | none => exact List.nodup_nil
    | some files =>
        exact (foundBelow_filesBelow? rootPlain (Path.isAbsolute_canonical disk.cwd root)
          (Path.notMem_toForwardSlashes _) searched).1
  exact (Text.pairwise_sort _).and nodup

end Disk

end Crossref

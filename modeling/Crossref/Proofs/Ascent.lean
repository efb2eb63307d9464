import Mathlib.Data.List.Induction
import Mathlib.Logic.Relation
import Crossref.ModuleDir
import Crossref.Proofs.Disk
import Crossref.Proofs.Text.Units

/-! Going up. Every directory above a path has a shorter path, so going up comes to an end, and a search
that goes up finds the closest hit. -/

set_option autoImplicit false

namespace Crossref

namespace Path

theorem reverse_follow_sublist (position : List Text) (component : Text) :
    (follow false position component).reverse.Sublist (position.reverse ++ [component]) := by
  simp only [follow, Bool.and_false, Bool.false_eq_true, if_false]
  split
  · exact List.sublist_append_left _ _
  · split
    · cases position with
      | nil => exact List.nil_sublist _
      | cons nearest rest =>
          rw [List.reverse_cons, List.append_assoc]
          exact List.sublist_append_left _ _
    · rw [List.reverse_cons]

/-- Resolving dots leaves components out. -/
theorem resolveDots_sublist (path : List Text) : (resolveDots false path).Sublist path := by
  induction path using List.reverseRecOn with
  | nil => exact .slnil
  | append_singleton front component ih =>
      rw [resolveDots, List.foldl_append, List.foldl_cons, List.foldl_nil]
      exact (reverse_follow_sublist _ component).trans (ih.append_right [component])

theorem ofNames_eq_flatMap {names : List Text} (nonempty : names ≠ []) :
    ofNames names = names.flatMap fun name => '/' :: name := by
  induction names with
  | nil => exact absurd rfl nonempty
  | cons name rest ih =>
      by_cases empty : rest = []
      · rw [empty, ofNames_singleton, List.flatMap_singleton]
      · rw [List.flatMap_cons, ← ih empty, ← ofNames_singleton]
        exact ofNames_append (List.cons_ne_nil name []) empty

/-- Resolving an absolute path leaves characters out. -/
theorem resolve_sublist (cwd : Text) {path : Text} (absolute : isAbsolute path) :
    (resolve cwd path).Sublist path := by
  obtain ⟨behind, rfl⟩ := exists_of_isAbsolute absolute
  have split : components ('/' :: behind) = [] :: components behind := components_append [] behind
  have start : resolveDots false (components ('/' :: behind)) = resolveDots false (components behind) := by
    rw [split]
    rfl
  rw [resolve, Path.absolute, if_pos absolute, start]
  by_cases empty : resolveDots false (components behind) = []
  · rw [empty]
    exact List.singleton_sublist.mpr List.mem_cons_self
  · have nonempty : components behind ≠ [] := List.splitOnP_ne_nil _ _
    rw [ofNames_eq_flatMap empty, ← ofNames_components behind, ofNames_eq_flatMap nonempty]
    exact (resolveDots_sublist _).flatMap _

/-- Resolving never lengthens an absolute path. -/
theorem length_canonical_le (cwd : Text) {path : Text} (absolute : isAbsolute path) :
    (canonical cwd path).length ≤ path.length := by
  rw [canonical, toForwardSlashes, List.length_map]
  exact (resolve_sublist cwd absolute).length_le

theorem length_dropWhile_dropWhile_lt {reversed : Text} (nonempty : reversed ≠ []) :
    ((reversed.dropWhile fun c => decide (c = '/')).dropWhile fun c => !decide (c = '/')).length <
      reversed.length := by
  cases reversed with
  | nil => exact absurd rfl nonempty
  | cons first rest =>
      have dropped : ∀ drops : Char → Bool, (rest.dropWhile drops).length ≤ rest.length :=
        fun drops => (List.dropWhile_suffix drops).length_le
      by_cases slash : first = '/'
      · rw [List.dropWhile_cons_of_pos (by simpa using slash)]
        exact Nat.lt_succ_of_le
          (Nat.le_trans (List.dropWhile_suffix _).length_le (dropped _))
      · rw [List.dropWhile_cons_of_neg (by simpa using slash),
          List.dropWhile_cons_of_pos (by simpa using slash)]
        exact Nat.lt_succ_of_le (dropped _)

/-- The directory of an absolute path leaves characters out: it is a front of the path, or its root. -/
theorem directory_spec {path : Text} (absolute : isAbsolute path) (below : path ≠ ['/']) :
    (directory path).length < path.length ∧ isAbsolute (directory path) ∧ (directory path).Sublist path := by
  obtain ⟨behind, rfl⟩ := exists_of_isAbsolute absolute
  have long : 1 < ('/' :: behind).length := by
    cases behind with
    | nil => exact absurd rfl below
    | cons first rest => simp
  have root : ['/'].Sublist ('/' :: behind) := List.singleton_sublist.mpr List.mem_cons_self
  have suffix : ((('/' :: behind).reverse.dropWhile fun c => decide (c = '/')).dropWhile
      fun c => !decide (c = '/')) <:+ ('/' :: behind).reverse :=
    (List.dropWhile_suffix _).trans (List.dropWhile_suffix _)
  have shorter := length_dropWhile_dropWhile_lt (List.reverse_ne_nil_iff.mpr (List.cons_ne_nil '/' behind))
  have ends := List.head?_dropWhile_not (fun c => !decide (c = '/'))
    (('/' :: behind).reverse.dropWhile fun c => decide (c = '/'))
  rw [List.length_reverse] at shorter
  unfold directory
  simp only [absolute, if_true]
  generalize ((('/' :: behind).reverse.dropWhile fun c => decide (c = '/')).dropWhile
      fun c => !decide (c = '/')) = front at suffix shorter ends
  match front with
  | [] => exact ⟨long, rfl, root⟩
  | [_] => exact ⟨long, rfl, root⟩
  | [last, first] =>
      have starts : [first, last] <+: '/' :: behind := by
        simpa using List.reverse_prefix.mpr suffix
      have firstSlash : first = '/' := (List.cons_prefix_cons.mp starts).1
      have lastSlash : last = '/' := by simpa using ends
      rw [firstSlash, lastSlash] at starts
      exact ⟨shorter, rfl, starts.sublist⟩
  | last :: first :: second :: rest =>
      -- all but the last slash of a front of the path
      have starts : (first :: second :: rest).reverse ++ [last] <+: '/' :: behind := by
        simpa using List.reverse_prefix.mpr suffix
      have inner := (List.prefix_append _ [last]).trans starts
      refine ⟨?_, ?_, inner.sublist⟩
      · rw [List.length_reverse]
        exact Nat.lt_of_succ_lt shorter
      · obtain ⟨others, same⟩ := inner
        cases reversed : (first :: second :: rest).reverse with
        | nil => exact absurd (List.reverse_eq_nil_iff.mp reversed) (List.cons_ne_nil _ _)
        | cons slash tail =>
            rw [reversed] at same
            cases same
            change isAbsolute (first :: second :: rest).reverse
            rw [reversed]
            rfl

theorem parent?_eq_some_iff {cwd path above : Text} :
    parent? cwd path = some above ↔
      canonical cwd path ≠ ['/'] ∧ above = canonical cwd (directory (canonical cwd path)) := by
  have isAbsolute : isAbsolute (canonical cwd path) := rfl
  rw [parent?]
  generalize canonical cwd path = here at isAbsolute
  by_cases root : here = ['/']
  · subst root
    have noNames : Plain [] := List.forall_mem_nil _
    have stays : canonical cwd (directory ['/']) = ['/'] := canonical_ofNames cwd noNames
    simp [stays]
  · obtain ⟨shorter, above, _⟩ := directory_spec isAbsolute root
    have differs : canonical cwd (directory here) ≠ here := by
      intro same
      have lengths := length_canonical_le cwd above
      rw [same] at lengths
      omega
    simp [differs, root, eq_comm]

theorem parent?_eq_none_iff {cwd path : Text} :
    parent? cwd path = none ↔ canonical cwd path = ['/'] := by
  constructor
  · intro top
    by_contra root
    exact nomatch top.symm.trans (parent?_eq_some_iff.mpr ⟨root, rfl⟩)
  · intro root
    cases up : parent? cwd path with
    | none => rfl
    | some above => exact absurd root (parent?_eq_some_iff.mp up).1

theorem length_parent?_lt {cwd path above : Text} (up : parent? cwd path = some above) :
    above.length < (canonical cwd path).length := by
  obtain ⟨root, rfl⟩ := parent?_eq_some_iff.mp up
  obtain ⟨shorter, absolute, _⟩ := directory_spec (isAbsolute_canonical cwd path) root
  exact Nat.lt_of_le_of_lt (length_canonical_le cwd absolute) shorter

end Path

namespace Disk

variable {disk : Disk} {root start path above : Text}

theorem canonical_of_notMem (absolute : Path.isAbsolute path) (noBackslash : '\\' ∉ path) :
    disk.canonical path = Path.ofNames (disk.names path) :=
  Path.toForwardSlashes_of_notMem (Path.notMem_ofNames (disk.plain_names absolute noBackslash))

/-- A path that stays the same when it is tidied spells plain names. -/
theorem ofNames_of_canonical (isCanonical : disk.canonical path = path) :
    Path.Plain (disk.names path) ∧ Path.ofNames (disk.names path) = path := by
  have absolute : Path.isAbsolute path := isCanonical ▸ Path.isAbsolute_canonical disk.cwd path
  have noBackslash : '\\' ∉ path := isCanonical ▸ Path.notMem_toForwardSlashes _
  exact ⟨disk.plain_names absolute noBackslash,
    (disk.canonical_of_notMem absolute noBackslash).symm.trans isCanonical⟩

/-- What is above a path is a directory of plain names. -/
theorem exists_ofNames_of_parent? (up : disk.parent? path = some above) :
    ∃ names, Path.Plain names ∧ above = Path.ofNames names := by
  obtain ⟨root, rfl⟩ := Path.parent?_eq_some_iff.mp up
  obtain ⟨_, absolute, held⟩ := Path.directory_spec (Path.isAbsolute_canonical disk.cwd path) root
  have noBackslash : '\\' ∉ Path.directory (Path.canonical disk.cwd path) :=
    fun mem => Path.notMem_toForwardSlashes _ (held.subset mem)
  exact ⟨_, disk.plain_names absolute noBackslash, disk.canonical_of_notMem absolute noBackslash⟩

theorem length_canonical_above_lt (up : disk.parent? path = some above) :
    (disk.canonical above).length < (disk.canonical path).length := by
  have shorter := Path.length_parent?_lt up
  obtain ⟨names, plain, rfl⟩ := exists_ofNames_of_parent? up
  rwa [canonical, Path.canonical_ofNames disk.cwd plain]

/-- A path and the directories that hold it, one after the other: up to `root`, or else up to the root
of the disk. -/
inductive Ascent (disk : Disk) (root : Text) : Text → List Text → Prop
  | atRoot : Ascent disk root root [root]
  | atTop {path : Text} : path ≠ root → disk.parent? path = none → Ascent disk root path [path]
  | goesUp {path above : Text} {way : List Text} :
      path ≠ root → disk.parent? path = some above → Ascent disk root above way →
      Ascent disk root path (path :: way)

theorem ascent_climb {fuel : Nat} (enough : (disk.canonical start).length < fuel) :
    disk.Ascent root start (disk.climb root fuel start) := by
  induction fuel generalizing start with
  | zero => cases enough
  | succ fuel ih =>
      rw [climb]
      by_cases atRoot : start = root
      · rw [if_pos atRoot, atRoot]
        exact .atRoot
      · rw [if_neg atRoot]
        cases up : disk.parent? start with
        | none => exact .atTop atRoot up
        | some above =>
            have shorter := length_canonical_above_lt up
            exact .goesUp atRoot up (ih (Nat.lt_of_lt_of_le shorter (Nat.le_of_lt_succ enough)))

theorem ascent_ancestors : disk.Ascent root start (disk.ancestors root start) :=
  ascent_climb (Nat.lt_succ_self _)

theorem Ascent.exists_cons {way : List Text} (ascent : disk.Ascent root path way) :
    ∃ further, way = path :: further := by
  cases ascent with
  | atRoot => exact ⟨[], rfl⟩
  | atTop => exact ⟨[], rfl⟩
  | goesUp => exact ⟨_, rfl⟩

theorem Ascent.exists_of_parent? {way : List Text} (ascent : disk.Ascent root path way) (notRoot : path ≠ root)
    (up : disk.parent? path = some above) : ∃ further, way = path :: further ∧ disk.Ascent root above further := by
  cases ascent with
  | atRoot => exact absurd rfl notRoot
  | atTop _ top => exact nomatch top.symm.trans up
  | goesUp _ upAgain further =>
      cases upAgain.symm.trans up
      exact ⟨_, rfl, further⟩

section Position

variable {names : List Text} {way : List Text}

theorem parent?_ofNames_nil : disk.parent? (Path.ofNames []) = none :=
  Path.parent?_eq_none_iff.mpr (Path.canonical_ofNames disk.cwd (List.forall_mem_nil _))

theorem exists_concat_of_parent? (plain : Path.Plain names)
    (up : disk.parent? (Path.ofNames names) = some above) :
    ∃ front name, names = front ++ [name] ∧ above = Path.ofNames front := by
  rcases List.eq_nil_or_concat' names with rfl | ⟨front, name, rfl⟩
  · exact nomatch parent?_ofNames_nil.symm.trans up
  · have expected : disk.parent? (Path.ofNames (front ++ [name])) = some (Path.ofNames front) :=
      Path.parent?_ofNames_concat disk.cwd plain
    exact ⟨front, name, rfl, Option.some.inj (up.symm.trans expected)⟩

/-- Every step of an ascent leaves one name. -/
theorem Ascent.exists_front_of_mem_zipIdx (plain : Path.Plain names)
    (ascent : disk.Ascent root (Path.ofNames names) way) {offset depth : Nat}
    (mem : (path, depth) ∈ way.zipIdx offset) :
    ∃ front rest, names = front ++ rest ∧ depth = offset + rest.length ∧ path = Path.ofNames front := by
  generalize spelled : Path.ofNames names = start at ascent
  induction ascent generalizing names offset with
  | atRoot =>
      cases List.mem_singleton.mp mem
      exact ⟨names, [], (List.append_nil _).symm, rfl, spelled.symm⟩
  | atTop notRoot top =>
      cases List.mem_singleton.mp mem
      exact ⟨names, [], (List.append_nil _).symm, rfl, spelled.symm⟩
  | goesUp notRoot up _ ih =>
      subst spelled
      rcases List.mem_cons.mp mem with here | further
      · cases here
        exact ⟨names, [], (List.append_nil _).symm, rfl, rfl⟩
      · obtain ⟨init, name, rfl, rfl⟩ := exists_concat_of_parent? plain up
        obtain ⟨front, rest, rfl, rfl, rfl⟩ := ih plain.of_concat further rfl
        refine ⟨front, rest ++ [name], List.append_assoc _ _ _, ?_, rfl⟩
        rw [List.length_append, List.length_singleton]
        omega

theorem Ascent.exists_prefix (plain : Path.Plain names)
    (ascent : disk.Ascent root (Path.ofNames names) way) (mem : path ∈ way) :
    ∃ front, front <+: names ∧ Path.Plain front ∧ path = Path.ofNames front := by
  rw [← List.zipIdx_map_fst 0 way] at mem
  obtain ⟨⟨_, depth⟩, listed, rfl⟩ := List.mem_map.mp mem
  obtain ⟨front, rest, rfl, _, spelled⟩ := ascent.exists_front_of_mem_zipIdx plain listed
  exact ⟨front, List.prefix_append _ _, plain.of_append, spelled⟩

/-- From a place at or below its end an ascent meets no place above its end. -/
theorem Ascent.prefix_names {rootNames : List Text} (rootPlain : Path.Plain rootNames)
    (plain : Path.Plain names) (inside : rootNames <+: names)
    (ascent : disk.Ascent (Path.ofNames rootNames) (Path.ofNames names) way) (mem : path ∈ way) :
    rootNames <+: disk.names path := by
  generalize spelled : Path.ofNames names = start at ascent
  induction ascent generalizing names with
  | atRoot =>
      have here : disk.names path = rootNames := by
        rw [List.mem_singleton.mp mem, disk.names_ofNames rootPlain]
      exact here ▸ List.prefix_rfl
  | atTop notRoot top =>
      rw [List.mem_singleton.mp mem, ← spelled, disk.names_ofNames plain]
      exact inside
  | goesUp notRoot up _ ih =>
      subst spelled
      rcases List.mem_cons.mp mem with rfl | further
      · rw [disk.names_ofNames plain]
        exact inside
      · obtain ⟨init, name, rfl, rfl⟩ := exists_concat_of_parent? plain up
        rcases List.prefix_concat_iff.mp inside with rfl | stillInside
        · exact absurd rfl notRoot
        · exact ih plain.of_concat stillInside further rfl

/-- An ascent from below a directory meets what lies between them and then the directory, unless it ends before. -/
theorem Ascent.exists_split {front rest : List Text} (plain : Path.Plain (front ++ rest))
    (ascent : disk.Ascent root (Path.ofNames (front ++ rest)) way)
    (outside : ∀ between, between ≠ [] → between <+: rest → Path.ofNames (front ++ between) ≠ root) :
    ∃ lower upper, way = lower ++ Path.ofNames front :: upper ∧ ∀ path, path ∈ lower ↔
      ∃ between, between ≠ [] ∧ between <+: rest ∧ path = Path.ofNames (front ++ between) := by
  induction rest using List.reverseRecOn generalizing way with
  | nil =>
      rw [List.append_nil] at ascent
      obtain ⟨upper, rfl⟩ := ascent.exists_cons
      refine ⟨[], upper, rfl, fun path => iff_of_false List.not_mem_nil ?_⟩
      rintro ⟨between, nonempty, starts, _⟩
      exact absurd (List.prefix_nil.mp starts) nonempty
  | append_singleton init name ih =>
      rw [← List.append_assoc] at plain ascent
      have notRoot : Path.ofNames (front ++ init ++ [name]) ≠ root := by
        rw [List.append_assoc]
        exact outside _ (List.concat_ne_nil name init) List.prefix_rfl
      have up : disk.parent? (Path.ofNames (front ++ init ++ [name])) = some (Path.ofNames (front ++ init)) :=
        Path.parent?_ofNames_concat disk.cwd plain
      obtain ⟨further, rfl, above⟩ := ascent.exists_of_parent? notRoot up
      obtain ⟨lower, upper, rfl, members⟩ := ih plain.of_concat above fun between nonempty starts =>
        outside between nonempty (starts.trans (List.prefix_append init [name]))
      refine ⟨Path.ofNames (front ++ init ++ [name]) :: lower, upper, rfl, fun path => ?_⟩
      rw [List.mem_cons, members]
      constructor
      · rintro (rfl | ⟨between, nonempty, starts, spelled⟩)
        · exact ⟨init ++ [name], List.concat_ne_nil name init, List.prefix_rfl, by rw [List.append_assoc]⟩
        · exact ⟨between, nonempty, starts.trans (List.prefix_append init [name]), spelled⟩
      · rintro ⟨between, nonempty, starts, rfl⟩
        rcases List.prefix_concat_iff.mp starts with rfl | before
        · exact .inl (by rw [List.append_assoc])
        · exact .inr ⟨between, nonempty, before, rfl⟩

end Position

section Climb

variable {α : Type} (hit : Text → Option α)

/-- A search that goes up leaves a directory for the one above it, if the directory is neither a hit
nor the root of the search. -/
def Passes (disk : Disk) (root : Text) (path above : Text) : Prop :=
  path ≠ root ∧ hit path = none ∧ disk.parent? path = some above

variable {hit} {found : α}

theorem exists_passes_iff :
    (∃ dir, Relation.ReflTransGen (disk.Passes hit root) start dir ∧ hit dir = some found) ↔
      hit start = some found ∨ start ≠ root ∧ hit start = none ∧
        ∃ above, disk.parent? start = some above ∧
          ∃ dir, Relation.ReflTransGen (disk.Passes hit root) above dir ∧ hit dir = some found := by
  constructor
  · rintro ⟨dir, run, isHit⟩
    rcases run.cases_head with rfl | ⟨above, ⟨notRoot, noHit, up⟩, further⟩
    · exact .inl isHit
    · exact .inr ⟨notRoot, noHit, above, up, dir, further, isHit⟩
  · rintro (isHit | ⟨notRoot, noHit, above, up, dir, further, isHit⟩)
    · exact ⟨start, .refl, isHit⟩
    · exact ⟨dir, .head ⟨notRoot, noHit, up⟩ further, isHit⟩

theorem Ascent.findSome?_iff {way : List Text} (ascent : disk.Ascent root start way) :
    way.findSome? hit = some found ↔
      ∃ dir, Relation.ReflTransGen (disk.Passes hit root) start dir ∧ hit dir = some found := by
  induction ascent with
  | atRoot =>
      rw [exists_passes_iff]
      simp
  | atTop notRoot top =>
      rw [exists_passes_iff]
      simp [top]
  | @goesUp path above way notRoot up _ ih =>
      rw [exists_passes_iff, List.findSome?_cons]
      cases here : hit path with
      | none => simp [ih, up, notRoot]
      | some other => simp

theorem findSome?_ancestors_iff :
    (disk.ancestors root start).findSome? hit = some found ↔
      ∃ dir, Relation.ReflTransGen (disk.Passes hit root) start dir ∧ hit dir = some found :=
  ascent_ancestors.findSome?_iff

end Climb

end Disk

end Crossref

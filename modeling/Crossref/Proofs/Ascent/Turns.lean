import Crossref.Proofs.Ascent

/-! Going up turn by turn. The only place that is sure to stop a search is the root of the disk, since the place that
a search is to stop at is compared as it is spelled. The search ends all the same: what lies above a path has fewer code
units than the path has when it is tidied. -/

set_option autoImplicit false

namespace Crossref

namespace Path

theorem width_toForwardSlashes (path : Text) : Text.width (toForwardSlashes path) = Text.width path := by
  induction path with
  | nil => rfl
  | cons c rest ih =>
      have single : (Text.charUnits (if c = '\\' then '/' else c)).length = (Text.charUnits c).length := by
        split
        · next backslash =>
            rw [backslash]
            rfl
        · rfl
      rw [Text.width_cons c, ← single, ← ih]
      exact Text.width_cons _ _

theorem width_canonical_le (cwd : Text) {path : Text} (absolute : isAbsolute path) :
    Text.width (canonical cwd path) ≤ Text.width path := by
  rw [canonical, width_toForwardSlashes]
  exact Text.width_le_of_sublist (resolve_sublist cwd absolute)

theorem width_canonical_pos (cwd path : Text) : 0 < Text.width (canonical cwd path) := by
  obtain ⟨behind, spelled⟩ := exists_of_isAbsolute (isAbsolute_canonical cwd path)
  have slash := Text.charUnits_length_pos '/'
  rw [spelled, Text.width_cons]
  omega

theorem width_parent?_lt {cwd path above : Text} (up : parent? cwd path = some above) :
    Text.width above < Text.width (canonical cwd path) := by
  obtain ⟨root, rfl⟩ := parent?_eq_some_iff.mp up
  obtain ⟨shorter, absolute, sub⟩ := directory_spec (isAbsolute_canonical cwd path) root
  exact Nat.lt_of_le_of_lt (width_canonical_le cwd absolute) (Text.width_lt_of_sublist sub shorter)

end Path

namespace Disk

variable {disk : Disk} {root path above : Text}

theorem isAbsolute_of_parent? (up : disk.parent? path = some above) : Path.isAbsolute above := by
  obtain ⟨_, rfl⟩ := Path.parent?_eq_some_iff.mp up
  exact Path.isAbsolute_canonical _ _

theorem Ascent.length_le_width {way : List Text} (ascent : disk.Ascent root path way) :
    way.length ≤ Text.width (disk.canonical path) := by
  induction ascent with
  | atRoot => exact Path.width_canonical_pos disk.cwd root
  | atTop => exact Path.width_canonical_pos disk.cwd _
  | goesUp _ up _ ih =>
      have tidied := Path.width_canonical_le disk.cwd (isAbsolute_of_parent? up)
      have shorter := Path.width_parent?_lt up
      exact Nat.lt_of_le_of_lt (Nat.le_trans ih tidied) shorter

/-- A search that goes up from a path, one directory a turn, until a visit finds something, the place is `root`, or
nothing lies above. The visits know how many directories were left. Nothing is answered if the turns run out. -/
def searchUp {α : Type} (disk : Disk) (root : Text) (visit : Text → Nat → Option α) :
    Nat → Text → Nat → Option (Option α)
  | 0, _, _ => none
  | turns + 1, path, depth =>
    match visit path depth with
    | some found => some (some found)
    | none =>
      if path = root then some none
      else
        match disk.parent? path with
        | none => some none
        | some above => disk.searchUp root visit turns above (depth + 1)

/-- As many turns as there are places on the way are enough, and the search visits these places in their order. -/
theorem Ascent.searchUp_eq {α : Type} (visit : Text → Nat → Option α) {way : List Text}
    (ascent : disk.Ascent root path way) {turns : Nat} (enough : way.length ≤ turns) (depth : Nat) :
    disk.searchUp root visit turns path depth =
      some ((way.zipIdx depth).findSome? fun (place, left) => visit place left) := by
  induction ascent generalizing turns depth with
  | atRoot =>
      obtain ⟨more, rfl⟩ := Nat.exists_eq_succ_of_ne_zero (Nat.ne_of_gt enough)
      rw [searchUp, if_pos rfl, List.zipIdx_singleton, List.findSome?_cons]
      dsimp only
      cases visit root depth <;> rfl
  | @atTop path notRoot top =>
      obtain ⟨more, rfl⟩ := Nat.exists_eq_succ_of_ne_zero (Nat.ne_of_gt enough)
      rw [searchUp, if_neg notRoot, top, List.zipIdx_singleton, List.findSome?_cons]
      dsimp only
      cases visit path depth <;> rfl
  | @goesUp path above way notRoot up _ ih =>
      obtain ⟨more, rfl⟩ := Nat.exists_eq_succ_of_ne_zero (Nat.ne_of_gt (Nat.lt_of_lt_of_le (Nat.succ_pos _) enough))
      rw [searchUp, if_neg notRoot, up, List.zipIdx_cons, List.findSome?_cons]
      dsimp only
      cases visit path depth with
      | some found => rfl
      | none => exact ih (Nat.le_of_succ_le_succ enough) (depth + 1)

/-- What lies above a path is absolute and has fewer code units than the tidied path, and tidying never adds code units
to an absolute path. So a search that goes up from any start to any root ends, whatever is visited, in at most as many
turns as the tidied start has code units, and it answers what is found first on the way up. -/
theorem climbing_ends (disk : Disk) (root : Text) :
    (∀ path above, disk.parent? path = some above →
      Path.isAbsolute above ∧ Text.width above < Text.width (disk.canonical path)) ∧
    (∀ path, Path.isAbsolute path → Text.width (disk.canonical path) ≤ Text.width path) ∧
    ∀ {α : Type} (visit : Text → Nat → Option α) (start : Text) (turns : Nat),
      Text.width (disk.canonical start) ≤ turns →
        disk.searchUp root visit turns start 0 =
          some ((disk.ancestors root start).zipIdx.findSome? fun (place, left) => visit place left) := by
  refine ⟨fun path above up => ⟨isAbsolute_of_parent? up, Path.width_parent?_lt up⟩,
    fun path absolute => Path.width_canonical_le disk.cwd absolute, fun visit start turns enough => ?_⟩
  have ascent : disk.Ascent root start (disk.ancestors root start) := ascent_ancestors
  exact ascent.searchUp_eq visit (Nat.le_trans ascent.length_le_width enough) 0

/-- From a relative start that spells a backslash next to dots, to a root that does not lie above it and ends in a
slash. -/
theorem climbing_ends_beside_unreachable_root :
    let disk : Disk := { root := .directory [], cwd := "/p" }
    let start : Text := "a\\..\\b"
    disk.canonical start = "/p/a/../b" ∧ disk.parent? start = some "/p" ∧
      Text.width "/p" < Text.width (disk.canonical start) ∧
      Text.width (disk.canonical "/p/a/../b") ≤ Text.width "/p/a/../b" ∧
      disk.searchUp "/q/" (fun _ _ => (none : Option Unit)) 9 start 0 = some none := by
  intro disk start
  obtain ⟨shortens, tidies, ends⟩ := climbing_ends disk "/q/"
  have tidied : disk.canonical start = "/p/a/../b" := by decide
  have up : disk.parent? start = some "/p" := by decide
  have enough : Text.width (disk.canonical start) ≤ 9 := by decide
  refine ⟨tidied, up, (shortens start _ up).2, tidies "/p/a/../b" rfl, ?_⟩
  rw [ends (fun _ _ => none) start 9 enough, List.findSome?_eq_none_iff.mpr fun _ _ => rfl]

end Disk

end Crossref

import Crossref.Proofs.Component
import Crossref.Proofs.Text.Units

/-! Which descriptors are closest to a path. The closer ones come first, and equally close ones keep the
order of their files. The descriptor of a component and a path in the component share the path of
the component, so each descriptor that is as close as this one lies in the component too. -/

set_option autoImplicit false

namespace Crossref

/-- Sorting keeps the order of what it may leave in either order. -/
theorem pairwise_mergeSort_of_pairwise {α : Type} {le : α → α → Bool} {precedes : α → α → Prop}
    (trans : ∀ a b c, le a b → le b c → le a c) (total : ∀ a b, le a b || le b a) {items : List α}
    (ordered : items.Pairwise precedes) :
    (items.mergeSort le).Pairwise fun first second =>
      le first second ∧ (le second first → precedes first second) := by
  refine List.pairwise_iff_forall_sublist.mpr fun {first second} pair => ?_
  have before : le first second :=
    List.pairwise_iff_forall_sublist.mp (List.pairwise_mergeSort trans total items) pair
  refine ⟨before, fun back => ?_⟩
  -- what may stand on either side of the first item is sorted already
  let alike (item : α) : Bool := le first item && le item first
  have sorted : (items.filter alike).Pairwise fun left right => le left right := by
    refine List.pairwise_of_forall_mem_list fun left leftMem right rightMem => ?_
    have leftAlike := (List.mem_filter.mp leftMem).2
    have rightAlike := (List.mem_filter.mp rightMem).2
    simp only [alike, Bool.and_eq_true] at leftAlike rightAlike
    exact trans _ _ _ leftAlike.2 rightAlike.1
  have kept : (items.filter alike).Sublist ((items.mergeSort le).filter alike) := by
    have filtered := (List.sublist_mergeSort trans total sorted List.filter_sublist).filter alike
    simpa only [List.filter_filter, Bool.and_self] using filtered
  have same : items.filter alike = (items.mergeSort le).filter alike :=
    kept.eq_of_length ((List.mergeSort_perm items le).filter alike).length_eq.symm
  have firstAlike : alike first := by simp [alike, trans first second first before back]
  have secondAlike : alike second := by simp [alike, before, back]
  have inItems : [first, second].Sublist items := by
    have filtered := pair.filter alike
    rw [List.filter_cons_of_pos firstAlike, List.filter_cons_of_pos secondAlike, ← same] at filtered
    exact filtered.trans List.filter_sublist
  exact List.pairwise_iff_forall_sublist.mp ordered inItems

namespace Descriptor

/-- A descriptor is closer to a path than another one or, if both are equally close, has the file that
comes first. -/
def Ahead (path : Text) (first second : Descriptor) : Prop :=
  second.proximity path < first.proximity path ∨
    first.proximity path = second.proximity path ∧ Text.le first.file second.file

theorem Ahead.proximity_le {path : Text} {first second : Descriptor} (ahead : Ahead path first second) :
    second.proximity path ≤ first.proximity path := by
  rcases ahead with closer | ⟨tied, _⟩
  · exact Nat.le_of_lt closer
  · exact Nat.le_of_eq tied.symm

theorem sortByProximity_eq_mergeSort (descriptors : List Descriptor) (path : Text) :
    sortByProximity descriptors path =
      descriptors.mergeSort fun left right => right.proximity path ≤ left.proximity path := by
  have scored : (descriptors.map fun descriptor => (descriptor.proximity path, descriptor)).mergeSort
        (fun left right => right.1 ≤ left.1) =
      (descriptors.mergeSort fun left right => right.proximity path ≤ left.proximity path).map
        fun descriptor => (descriptor.proximity path, descriptor) := by
    symm
    refine List.map_mergeSort ?_
    exact fun _ _ _ _ => rfl
  rw [sortByProximity, scored, List.map_map]
  exact List.map_id' _

theorem perm_sortByProximity (descriptors : List Descriptor) (path : Text) :
    (sortByProximity descriptors path).Perm descriptors := by
  rw [sortByProximity_eq_mergeSort]
  exact List.mergeSort_perm _ _

/-- Descriptors in the order of their files are sorted by proximity and then by their files. -/
theorem pairwise_sortByProximity {descriptors : List Descriptor}
    (ordered : descriptors.Pairwise fun first second => Text.le first.file second.file) (path : Text) :
    (sortByProximity descriptors path).Pairwise (Ahead path) := by
  rw [sortByProximity_eq_mergeSort]
  refine (pairwise_mergeSort_of_pairwise ?trans ?total ordered).imp ?ahead
  case trans =>
    intro first second third left right
    rw [decide_eq_true_eq] at left right ⊢
    exact Nat.le_trans right left
  case total =>
    intro left right
    rw [Bool.or_eq_true, decide_eq_true_eq, decide_eq_true_eq]
    exact Nat.le_total _ _
  case ahead =>
    rintro first second ⟨closer, tied⟩
    rw [decide_eq_true_eq] at closer tied
    rcases Nat.lt_or_eq_of_le closer with less | same
    · exact .inl less
    · exact .inr ⟨same.symm, tied (Nat.le_of_eq same.symm)⟩

/-- Descriptors that come closest first stay as they are. -/
theorem sortByProximity_of_descending {descriptors : List Descriptor} {path : Text}
    (descending : descriptors.Pairwise fun first second => second.proximity path ≤ first.proximity path) :
    sortByProximity descriptors path = descriptors := by
  rw [sortByProximity_eq_mergeSort]
  exact List.mergeSort_of_pairwise (descending.imp decide_eq_true)

theorem sortByProximity_pair {first second : Descriptor} {path : Text}
    (closer : first.proximity path < second.proximity path) :
    sortByProximity [first, second] path = [second, first] := by
  have behind : ¬ second.proximity path ≤ first.proximity path := Nat.not_le_of_lt closer
  simp [sortByProximity_eq_mergeSort, List.mergeSort, behind]

/-- The component of a descriptor lies strictly below that of another one. -/
def IsNestedIn (disk : Disk) (nested outer : Descriptor) : Prop :=
  ∃ names, names ≠ [] ∧
    disk.names nested.componentDir = disk.names outer.componentDir ++ names

/-- A descriptor that is as close to a path in a component as the descriptor of the component is
nested in it. -/
theorem LiesAt.eq_or_isNestedIn {disk : Disk} {front otherFront names : List Text}
    {descriptor other : Descriptor} (lies : descriptor.LiesAt disk front)
    (otherLies : other.LiesAt disk otherFront) (within : names ≠ [])
    (close : descriptor.proximity (Path.ofNames (front ++ names)) ≤
      other.proximity (Path.ofNames (front ++ names))) :
    other = descriptor ∨ other.IsNestedIn disk descriptor := by
  have nested : ∃ names, otherFront = front ++ names := by
    by_cases atRoot : front = []
    · exact ⟨otherFront, by rw [atRoot, List.nil_append]⟩
    · have startsWith : ∀ {rest : List Text}, rest ≠ [] →
          Path.ofNames front ++ ['/'] <+: Path.ofNames (front ++ rest) := by
        intro rest nonempty
        refine ⟨Text.join "/" rest, ?_⟩
        rw [Path.ofNames_append atRoot nonempty, List.append_assoc]
        rfl
      have shared : Text.width (Path.ofNames front ++ ['/']) ≤
          descriptor.proximity (Path.ofNames (front ++ names)) := by
        refine Text.width_le_sharedUnits ?_ (startsWith within)
        rw [lies.file]
        exact startsWith (List.cons_ne_nil _ _)
      have starts := Text.prefix_of_width_le_sharedUnits (startsWith within) (Nat.le_trans shared close)
      rw [otherLies.file] at starts
      obtain ⟨rest, nonempty, split⟩ := Path.exists_of_prefix atRoot
        (fun name mem => (lies.plain name mem).1.noSlash)
        (fun name mem => (otherLies.plainFile name mem).1.noSlash) starts
      -- the last name is that of the file, and the names before it are those of the component
      refine ⟨rest.dropLast, ?_⟩
      have lastDropped := congrArg List.dropLast split
      rwa [List.dropLast_concat, List.dropLast_append_of_ne_nil nonempty] at lastDropped
  obtain ⟨names, rfl⟩ := nested
  by_cases empty : names = []
  · rw [empty, List.append_nil] at otherLies
    exact .inl (lies.unique otherLies)
  · refine .inr ⟨names, empty, ?_⟩
    rw [lies.componentDir, otherLies.componentDir, disk.names_ofNames lies.plain,
      disk.names_ofNames otherLies.plain]

end Descriptor

namespace Project

variable (project : Project) (disk : Disk)

/-- Descriptors are found in the order of their files. -/
theorem pairwise_readDescriptors :
    (project.readDescriptors disk).value.Pairwise fun first second =>
      Text.le first.file second.file := by
  have ordered : (project.findFilesNamed disk descriptorName).Pairwise
      fun first second => Text.le first second := Text.pairwise_sort _
  rw [value_readDescriptors, List.pairwise_filterMap]
  refine ordered.imp ?_
  intro first second before descriptor read other otherRead
  rw [Descriptor.file_of_read read, Descriptor.file_of_read otherRead]
  exact before

end Project

end Crossref

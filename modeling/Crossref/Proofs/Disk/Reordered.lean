import Mathlib.Data.List.Forall2
import Mathlib.Data.Option.Defs
import Crossref.Proofs.Disk

/-! Trees that differ only in the order in which their directories list what they hold. Every path leads
to the same file in them, or to directories that differ in this way. -/

set_option autoImplicit false

namespace Crossref

namespace Entry

mutual

/-- The same tree, with the listings of its directories in another order. -/
inductive Reordered : Entry → Entry → Prop
  | file (text : Text) : Reordered (file text) (file text)
  | directory {entries middle others : List (Text × Entry)} : ReorderedIn entries middle →
      middle.Perm others → Reordered (directory entries) (directory others)

/-- Listings of one order in which the entries of a name are the same but for their own order. -/
inductive ReorderedIn : List (Text × Entry) → List (Text × Entry) → Prop
  | nil : ReorderedIn [] []
  | cons {name : Text} {entry other : Entry} {entries others : List (Text × Entry)} :
      Reordered entry other → ReorderedIn entries others →
      ReorderedIn ((name, entry) :: entries) ((name, other) :: others)

end

theorem isPlainIn_iff {entries : List (Text × Entry)} :
    isPlainIn entries ↔ ∀ listed ∈ entries, '\\' ∉ listed.1 ∧ listed.2.isPlain := by
  induction entries with
  | nil => simp [isPlainIn]
  | cons listed rest ih =>
      rw [List.forall_mem_cons, ← ih]
      simp [isPlainIn]

mutual

theorem Reordered.isPlain {entry other : Entry} (reordered : Reordered entry other)
    (plain : entry.isPlain) : other.isPlain := by
  cases reordered with
  | file => rfl
  | directory pointwise perm =>
      have middlePlain := isPlainIn_iff.mp (pointwise.isPlainIn plain)
      exact isPlainIn_iff.mpr fun listed mem => middlePlain listed (perm.mem_iff.mpr mem)

theorem ReorderedIn.isPlainIn {entries others : List (Text × Entry)}
    (reordered : ReorderedIn entries others) (plain : isPlainIn entries) : isPlainIn others := by
  cases reordered with
  | nil => rfl
  | cons entry rest =>
      simp only [Entry.isPlainIn, Bool.and_eq_true] at plain ⊢
      exact ⟨⟨plain.1.1, entry.isPlain plain.1.2⟩, rest.isPlainIn plain.2⟩

end

theorem isSoundIn_iff {entries : List (Text × Entry)} :
    isSoundIn entries ↔ (∀ listed ∈ entries, isEntryName listed.1 ∧ listed.2.isSound) ∧
      entries.Pairwise fun first second => first.1 ≠ second.1 := by
  induction entries with
  | nil => simp [isSoundIn]
  | cons listed rest ih =>
      obtain ⟨name, entry⟩ := listed
      simp only [isSoundIn, Bool.and_eq_true, ih, List.all_eq_true, decide_eq_true_eq,
        List.forall_mem_cons, List.pairwise_cons]
      constructor
      · rintro ⟨⟨⟨allowed, others⟩, sound⟩, restSound, distinct⟩
        exact ⟨⟨⟨allowed, sound⟩, restSound⟩, fun other mem => (others other mem).symm, distinct⟩
      · rintro ⟨⟨⟨allowed, sound⟩, restSound⟩, others, distinct⟩
        exact ⟨⟨⟨allowed, fun other mem => (others other mem).symm⟩, sound⟩, restSound, distinct⟩

theorem isSoundIn_of_perm {entries others : List (Text × Entry)} (perm : entries.Perm others)
    (sound : isSoundIn others) : isSoundIn entries := by
  obtain ⟨allowed, distinct⟩ := isSoundIn_iff.mp sound
  refine isSoundIn_iff.mpr ⟨fun listed mem => allowed listed (perm.mem_iff.mp mem), ?_⟩
  exact (perm.pairwise_iff fun differs => differs.symm).mpr distinct

theorem find?_eq_some_iff {name : Text} {entry : Entry} {entries : List (Text × Entry)}
    (sound : isSoundIn entries) : find? name entries = some entry ↔ (name, entry) ∈ entries :=
  ⟨mem_of_find?, find?_of_mem sound⟩

theorem find?_eq_of_perm {entries others : List (Text × Entry)} (perm : entries.Perm others)
    (sound : isSoundIn others) (name : Text) : find? name entries = find? name others := by
  refine Option.ext fun entry => ?_
  rw [find?_eq_some_iff sound, find?_eq_some_iff (isSoundIn_of_perm perm sound), perm.mem_iff]

/-- A tree beside a sound one in which only the listings have another order. -/
structure Matches (entry other : Entry) : Prop where
  reordered : Reordered entry other
  sound : other.isSound

theorem ReorderedIn.find? {entries others : List (Text × Entry)} (reordered : ReorderedIn entries others)
    (sound : isSoundIn others) (name : Text) :
    Option.Rel Matches (Entry.find? name entries) (Entry.find? name others) := by
  induction entries generalizing others with
  | nil =>
      cases reordered
      exact .none
  | cons listed rest ih =>
      cases reordered with
      | @cons present _ other _ _ entry restReordered =>
          simp only [isSoundIn, Bool.and_eq_true] at sound
          simp only [Entry.find?]
          by_cases same : present = name
          · rw [if_pos same, if_pos same]
            exact .some ⟨entry, sound.1.2⟩
          · rw [if_neg same, if_neg same]
            exact ih restReordered sound.2

/-- What a name leads to in two directories that match is nothing, or matches. -/
theorem Matches.find? {entries others : List (Text × Entry)}
    (here : Matches (directory entries) (directory others)) (name : Text) :
    Option.Rel Matches (Entry.find? name entries) (Entry.find? name others) := by
  cases here.reordered with
  | directory pointwise perm =>
      rw [← find?_eq_of_perm perm here.sound]
      exact pointwise.find? (isSoundIn_of_perm perm here.sound) name

theorem Matches.walk? {here other : Entry} {above otherAbove : List Entry} {path : List Text}
    (matched : Matches here other) (passed : List.Forall₂ Matches above otherAbove) :
    Option.Rel Matches (Entry.walk? here above path) (Entry.walk? other otherAbove path) := by
  induction path generalizing here other above otherAbove with
  | nil => exact .some matched
  | cons component rest ih =>
      cases matched.reordered with
      | file text => exact .none
      | @directory entries _ others =>
          simp only [Entry.walk?]
          split
          · exact ih matched passed
          · split
            · cases passed with
              | nil => exact ih matched .nil
              | cons parent further => exact ih parent further
            · have found := matched.find? component
              generalize Entry.find? component entries = first at found ⊢
              generalize Entry.find? component others = second at found ⊢
              cases found with
              | none => exact .none
              | some inner => exact ih inner (.cons matched passed)

end Entry

namespace Disk

variable {disk other : Disk}

/-- A path leads to matching entries of two disks that differ in the order of their listings. -/
theorem entry?_reordered (cwd : other.cwd = disk.cwd) (reordered : Entry.Reordered disk.root other.root)
    (path : Text) : Option.Rel Entry.Matches (disk.entry? path) (other.entry? path) := by
  rw [Disk.entry?, Disk.entry?, cwd]
  split
  · exact .none
  · exact Entry.Matches.walk? ⟨reordered, other.sound.checked⟩ .nil

theorem readText?_reordered (cwd : other.cwd = disk.cwd)
    (reordered : Entry.Reordered disk.root other.root) (path : Text) :
    other.readText? path = disk.readText? path := by
  have found := entry?_reordered cwd reordered path
  rw [readText?, readText?]
  generalize disk.entry? path = first at found ⊢
  generalize other.entry? path = second at found ⊢
  cases found with
  | none => rfl
  | some matched =>
      cases matched.reordered with
      | file text => rfl
      | directory => rfl

theorem isDirectory_reordered (cwd : other.cwd = disk.cwd)
    (reordered : Entry.Reordered disk.root other.root) (path : Text) :
    other.isDirectory path = disk.isDirectory path := by
  have found := entry?_reordered cwd reordered path
  rw [isDirectory, isDirectory]
  generalize disk.entry? path = first at found ⊢
  generalize other.entry? path = second at found ⊢
  cases found with
  | none => rfl
  | some matched =>
      cases matched.reordered with
      | file text => rfl
      | directory => rfl

end Disk

end Crossref

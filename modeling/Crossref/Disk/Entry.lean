import Crossref.Path
import Crossref.Text.Units

/-! Trees of files and directories. Looking names up requires a directory at every step. -/

set_option autoImplicit false

namespace Crossref

/-- A file with its content, or a directory with its named entries. -/
inductive Entry where
  | file (text : Text)
  | directory (entries : List (Text × Entry))

namespace Entry

def find? (name : Text) : List (Text × Entry) → Option Entry
  | [] => none
  | (present, entry) :: rest => if present = name then some entry else find? name rest

/-- Follows components from `here`, where `above` holds the directories passed, nearest first. -/
def walk? (here : Entry) (above : List Entry) : List Text → Option Entry
  | [] => some here
  | component :: rest =>
    match here with
    | file _ => none
    | directory entries =>
      if component = [] || component = "." then walk? here above rest
      else if component = ".." then
        match above with
        | [] => walk? here [] rest
        | parent :: further => walk? parent further rest
      else
        match find? component entries with
        | some entry => walk? entry (here :: above) rest
        | none => none

/-- Replaces the entry of a name in a listing, or adds it. -/
def replace (name : Text) (entry : Entry) : List (Text × Entry) → List (Text × Entry)
  | [] => [(name, entry)]
  | (present, old) :: rest =>
    if present = name then (present, entry) :: rest else (present, old) :: replace name entry rest

/-- The listing of an entry; a file has none. -/
def listing : Entry → List (Text × Entry)
  | file _ => []
  | directory entries => entries

/-- Changes the entry at some names. Missing directories on the way are made. -/
def update (change : Option Entry → Entry) : List Text → Option Entry → Entry
  | [], old => change old
  | name :: rest, old =>
    let entries := (old.map listing).getD []
    directory (replace name (update change rest (find? name entries)) entries)

/-- Deletes the entry at some names, with all that it holds. -/
def erase : List Text → Entry → Entry
  | _, file text => file text
  | [], directory _ => directory []
  | [name], directory entries => directory (entries.filter fun entry => entry.1 ≠ name)
  | name :: rest, directory entries =>
    match find? name entries with
    | some entry => directory (replace name (erase rest entry) entries)
    | none => directory entries

mutual

/-- How many directories a tree holds, itself included. -/
def directoryCount : Entry → Nat
  | file _ => 0
  | directory entries => directoryCountIn entries + 1

def directoryCountIn : List (Text × Entry) → Nat
  | [] => 0
  | (_, entry) :: rest => directoryCount entry + directoryCountIn rest

end

/-- Whether a directory may list the name: it is not empty, does not lead back, and holds neither a
slash nor the character NUL. -/
def isEntryName (name : Text) : Bool :=
  name ≠ [] && name ≠ "." && name ≠ ".." && !name.contains '/' && !name.contains '\x00'

mutual

/-- Whether every directory of a tree lists names that it may list, and none of them twice. -/
def isSound : Entry → Bool
  | file _ => true
  | directory entries => isSoundIn entries

def isSoundIn : List (Text × Entry) → Bool
  | [] => true
  | (name, entry) :: rest =>
    isEntryName name && rest.all (·.1 ≠ name) && isSound entry && isSoundIn rest

end

/-- A tree in which every directory is as `isSound` asks. -/
class Sound (entry : Entry) : Prop where
  checked : entry.isSound

instance : Sound (directory []) := ⟨rfl⟩

theorem mem_of_find? {name : Text} {entry : Entry} {entries : List (Text × Entry)}
    (found : find? name entries = some entry) : (name, entry) ∈ entries := by
  induction entries with
  | nil => cases found
  | cons first rest ih =>
      obtain ⟨present, old⟩ := first
      simp only [find?] at found
      split at found
      · next same =>
          cases found
          cases same
          exact List.mem_cons_self
      · exact List.mem_cons_of_mem _ (ih found)

theorem sound_of_mem {listed : Text × Entry} {entries : List (Text × Entry)}
    (sound : isSoundIn entries) (mem : listed ∈ entries) :
    isEntryName listed.1 ∧ listed.2.isSound := by
  induction entries with
  | nil => cases mem
  | cons first rest ih =>
      obtain ⟨present, old⟩ := first
      simp only [isSoundIn, Bool.and_eq_true] at sound
      rcases List.mem_cons.mp mem with rfl | behind
      · exact ⟨sound.1.1.1, sound.1.2⟩
      · exact ih sound.2 behind

/-- A replacement adds no name but its own. -/
theorem mem_replace {name : Text} {entry : Entry} {entries : List (Text × Entry)}
    {listed : Text × Entry} (mem : listed ∈ replace name entry entries) :
    listed.1 = name ∨ listed ∈ entries := by
  induction entries with
  | nil => simp_all [replace]
  | cons first rest ih =>
      obtain ⟨present, old⟩ := first
      simp only [replace] at mem
      split at mem
      · rcases List.mem_cons.mp mem with rfl | behind
        · exact .inl ‹_›
        · exact .inr (List.mem_cons_of_mem _ behind)
      · rcases List.mem_cons.mp mem with rfl | behind
        · exact .inr List.mem_cons_self
        · exact (ih behind).imp_right (List.mem_cons_of_mem _)

theorem isSoundIn_replace {name : Text} {entry : Entry} {entries : List (Text × Entry)}
    (allowed : isEntryName name) (entrySound : entry.isSound) (sound : isSoundIn entries) :
    isSoundIn (replace name entry entries) := by
  induction entries with
  | nil => simp [replace, isSoundIn, allowed, entrySound]
  | cons first rest ih =>
      obtain ⟨present, old⟩ := first
      simp only [isSoundIn, Bool.and_eq_true] at sound
      obtain ⟨⟨⟨presentAllowed, different⟩, oldSound⟩, restSound⟩ := sound
      simp only [replace]
      split
      · simp only [isSoundIn, Bool.and_eq_true]
        exact ⟨⟨⟨presentAllowed, different⟩, entrySound⟩, restSound⟩
      · simp only [isSoundIn, Bool.and_eq_true]
        refine ⟨⟨⟨presentAllowed, List.all_eq_true.mpr fun listed mem => ?_⟩, oldSound⟩, ih restSound⟩
        rcases mem_replace mem with renamed | behind
        · rw [renamed]
          exact decide_eq_true (Ne.symm ‹_›)
        · exact List.all_eq_true.mp different listed behind

theorem isSoundIn_filter {entries : List (Text × Entry)} (keep : Text × Entry → Bool)
    (sound : isSoundIn entries) : isSoundIn (entries.filter keep) := by
  induction entries with
  | nil => rfl
  | cons first rest ih =>
      obtain ⟨present, old⟩ := first
      simp only [isSoundIn, Bool.and_eq_true] at sound
      obtain ⟨⟨⟨presentAllowed, different⟩, oldSound⟩, restSound⟩ := sound
      rw [List.filter_cons]
      split
      · simp only [isSoundIn, Bool.and_eq_true]
        refine ⟨⟨⟨presentAllowed, List.all_eq_true.mpr fun listed mem => ?_⟩, oldSound⟩, ih restSound⟩
        exact List.all_eq_true.mp different listed (List.mem_filter.mp mem).1
      · exact ih restSound

theorem isSoundIn_listing {old : Option Entry} (sound : ∀ entry ∈ old, entry.isSound) :
    isSoundIn ((old.map listing).getD []) := by
  match old with
  | none => rfl
  | some (file text) => rfl
  | some (directory entries) => exact sound _ rfl

theorem isSound_update {change : Option Entry → Entry}
    (keeps : ∀ old, (∀ entry ∈ old, entry.isSound) → (change old).isSound) {names : List Text}
    (allowed : names.all isEntryName) {old : Option Entry} (sound : ∀ entry ∈ old, entry.isSound) :
    (update change names old).isSound := by
  induction names generalizing old with
  | nil => exact keeps old sound
  | cons name rest ih =>
      obtain ⟨nameAllowed, restAllowed⟩ := Bool.and_eq_true_iff.mp (List.all_cons ▸ allowed)
      have listed := isSoundIn_listing sound
      exact isSoundIn_replace nameAllowed
        (ih restAllowed fun entry found => (sound_of_mem listed (mem_of_find? found)).2) listed

theorem isSound_erase (names : List Text) {entry : Entry} (sound : entry.isSound) :
    (erase names entry).isSound := by
  induction names, entry using erase.induct with
  | case1 names text => simp [erase, isSound]
  | case2 entries => rfl
  | case3 name entries => exact isSoundIn_filter _ sound
  | case4 name rest entries deeper entry found ih =>
      rw [erase.eq_4 _ _ _ deeper, found]
      obtain ⟨allowed, entrySound⟩ := sound_of_mem sound (mem_of_find? found)
      exact isSoundIn_replace allowed (ih entrySound) sound
  | case5 name rest entries deeper absent =>
      rw [erase.eq_4 _ _ _ deeper, absent]
      exact sound

end Entry

end Crossref

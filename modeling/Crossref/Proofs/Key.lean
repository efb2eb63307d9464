import Crossref.Key

/-! Keys are read back from how they are written. A part that is present ends with its mark, so it
is read as it was written; a part that is absent stays absent if what follows cannot be read as
one. The parts that are read from a text always have this form. -/

set_option autoImplicit false

namespace Crossref

theorem notMem_of_all_isKeyChar {run : Text} (keyRun : run.all isKeyChar) {c : Char}
    (other : isKeyChar c = false) : c ∉ run :=
  fun mem => Bool.eq_false_iff.mp other (List.all_eq_true.mp keyRun c mem)

theorem runBefore?_append {mark : Char} {run : Text} (keyRun : run.all isKeyChar)
    (other : isKeyChar mark = false) (rest : Text) :
    runBefore? mark (run ++ mark :: rest) = some (run, rest) := by
  have all : ∀ c ∈ run, isKeyChar c := List.all_eq_true.mp keyRun
  simp [runBefore?, List.takeWhile_append_of_pos all, List.dropWhile_append_of_pos all, other]

/-- A run that ends with another mark is not read. -/
theorem runBefore?_append_of_ne {mark stop : Char} {run : Text} (keyRun : run.all isKeyChar)
    (other : isKeyChar stop = false) (differs : stop ≠ mark) (rest : Text) :
    runBefore? mark (run ++ stop :: rest) = none := by
  have all : ∀ c ∈ run, isKeyChar c := List.all_eq_true.mp keyRun
  simp [runBefore?, List.dropWhile_append_of_pos all, other, differs]

theorem all_isKeyChar_of_runBefore? {mark : Char} {text run rest : Text}
    (read : runBefore? mark text = some (run, rest)) : run.all isKeyChar := by
  unfold runBefore? at read
  split at read
  · cases read
  · split at read
    · cases read
      exact List.all_takeWhile
    · cases read

theorem Family.name_all_isKeyChar (family : Family) : family.name.all isKeyChar := by
  cases family <;> rfl

namespace Key

/-- Parts whose texts are runs of key characters, with a remainder at which no part is left to
read. -/
structure Canonical (key : Key) : Prop where
  version : ∀ version ∈ key.version, version.all isKeyChar
  component : ∀ component ∈ key.component, component.all isKeyChar
  moduleName : ∀ moduleName ∈ key.moduleName, moduleName.all isKeyChar
  addressed : key.component.isSome → key.moduleName.isSome
  noFamily : key.family = none → (readFamily key.remainder).1 = none
  noAddress : key.family = none → key.component = none → runBefore? ':' key.remainder = none
  noVersion : key.family = none → key.moduleName = none → key.version = none →
    runBefore? '@' key.remainder = none

theorem getLast?_marked {part : Option Text} {mark c : Char}
    (last : c ∈ (marked part mark).getLast?) : c = mark := by
  cases part with
  | none => cases last
  | some text => simpa [marked] using last.symm

theorem marked_injective {mark : Char} {part other : Option Text}
    (same : marked part mark = marked other mark) : part = other := by
  cases part <;> cases other <;> simp_all [marked]

theorem notMem_marked {part : Option Text} {mark c : Char} (keyRun : ∀ run ∈ part, run.all isKeyChar)
    (other : isKeyChar c = false) (differs : c ≠ mark) : c ∉ marked part mark := by
  cases part with
  | none => exact List.not_mem_nil
  | some run => simpa [marked, differs] using notMem_of_all_isKeyChar (keyRun run rfl) other

theorem readVersion_marked {version : Option Text} {rest : Text}
    (keyRun : ∀ run ∈ version, run.all isKeyChar)
    (absent : version = none → runBefore? '@' rest = none) :
    readVersion (marked version '@' ++ rest) = (version, rest) := by
  cases version with
  | none => simp [marked, readVersion, absent rfl]
  | some run =>
      have read := runBefore?_append (keyRun run rfl) (by decide : isKeyChar '@' = false) rest
      simp only [marked, List.append_assoc, List.singleton_append, readVersion, read]

theorem readAddress_marked {component moduleName : Option Text} {rest : Text}
    (componentRun : ∀ run ∈ component, run.all isKeyChar)
    (moduleRun : ∀ run ∈ moduleName, run.all isKeyChar)
    (addressed : component.isSome → moduleName.isSome)
    (absent : component = none → runBefore? ':' rest = none) :
    readAddress (marked component ':' ++ marked moduleName ':' ++ rest) =
      ((component, moduleName), rest) := by
  have read : ∀ {run : Text} (_ : run.all isKeyChar) (behind : Text),
      runBefore? ':' (run ++ ':' :: behind) = some (run, behind) :=
    fun keyRun behind => runBefore?_append keyRun (by decide) behind
  match component, moduleName with
  | none, none => simp [marked, readAddress, absent rfl]
  | none, some name =>
      simp only [marked, List.nil_append, List.append_assoc, List.singleton_append, readAddress,
        read (moduleRun name rfl), absent rfl]
  | some name, none => simp at addressed
  | some first, some second =>
      simp only [marked, List.append_assoc, List.cons_append, List.nil_append, readAddress,
        read (componentRun first rfl), read (moduleRun second rfl)]

theorem readFamily_marked {family : Option Family} {rest : Text}
    (absent : family = none → (readFamily rest).1 = none) :
    readFamily (marked (family.map Family.name) '$' ++ rest) = (family, rest) := by
  cases family with
  | none =>
      have nothing := absent rfl
      simp only [Option.map_none, marked, List.nil_append]
      unfold readFamily at nothing ⊢
      split at nothing
      · cases nothing
      · rfl
  | some family => cases family <;> rfl

/-- A family and its mark are read neither as a version nor as an address. -/
theorem runBefore?_family {mark : Char} (family : Family) (differs : '$' ≠ mark) (rest : Text) :
    runBefore? mark (marked (some family.name) '$' ++ rest) = none := by
  simp only [marked, List.append_assoc, List.singleton_append]
  exact runBefore?_append_of_ne family.name_all_isKeyChar (by decide) differs rest

/-- Canonical parts are read back from how they are written. -/
theorem ofText_toText {key : Key} (canonical : key.Canonical) : ofText key.toText = key := by
  obtain ⟨version, component, moduleName, family, remainder⟩ := key
  have versionRead : version = none →
      runBefore? '@' (marked component ':' ++ marked moduleName ':' ++
        (marked (family.map Family.name) '$' ++ remainder)) = none := by
    intro noVersion
    have stopped : ∀ {run : Text} (_ : run.all isKeyChar) (behind : Text),
        runBefore? '@' (run ++ ':' :: behind) = none :=
      fun keyRun behind => runBefore?_append_of_ne keyRun (by decide) (by decide) behind
    match component, moduleName, family with
    | some first, _, _ => simpa [marked] using stopped (canonical.component first rfl) _
    | none, some second, _ => simpa [marked] using stopped (canonical.moduleName second rfl) _
    | none, none, some family => exact runBefore?_family family (by decide) remainder
    | none, none, none => exact canonical.noVersion rfl rfl noVersion
  have addressRead : component = none →
      runBefore? ':' (marked (family.map Family.name) '$' ++ remainder) = none := by
    intro noComponent
    cases family with
    | some family => exact runBefore?_family family (by decide) remainder
    | none => exact canonical.noAddress rfl noComponent
  have written : toText ⟨version, component, moduleName, family, remainder⟩ =
      marked version '@' ++ (marked component ':' ++ marked moduleName ':' ++
        (marked (family.map Family.name) '$' ++ remainder)) := by
    simp [toText]
  simp only [ofText, written, readVersion_marked canonical.version versionRead,
    readAddress_marked canonical.component canonical.moduleName canonical.addressed addressRead,
    readFamily_marked canonical.noFamily]

theorem readVersion_spec (text : Text) :
    (∀ version ∈ (readVersion text).1, version.all isKeyChar) ∧
    ((readVersion text).1 = none →
      runBefore? '@' text = none ∧ (readVersion text).2 = text) := by
  unfold readVersion
  cases read : runBefore? '@' text with
  | none => simp
  | some pair =>
      obtain ⟨version, rest⟩ := pair
      simpa using all_isKeyChar_of_runBefore? read

theorem readAddress_spec (text : Text) :
    let ((component, moduleName), rest) := readAddress text
    (∀ name ∈ component, name.all isKeyChar) ∧ (∀ name ∈ moduleName, name.all isKeyChar) ∧
    (component.isSome → moduleName.isSome) ∧ (component = none → runBefore? ':' rest = none) ∧
    (moduleName = none → rest = text) := by
  unfold readAddress
  cases read : runBefore? ':' text with
  | none => simp [read]
  | some pair =>
      obtain ⟨first, rest⟩ := pair
      have firstRun := all_isKeyChar_of_runBefore? read
      cases readBehind : runBefore? ':' rest with
      | none => simpa [readBehind] using firstRun
      | some pair =>
          obtain ⟨second, behind⟩ := pair
          have secondRun := all_isKeyChar_of_runBefore? readBehind
          have both : (∀ c ∈ first, isKeyChar c) ∧ ∀ c ∈ second, isKeyChar c :=
            ⟨List.all_eq_true.mp firstRun, List.all_eq_true.mp secondRun⟩
          simpa [readBehind] using both

theorem readFamily_none {text : Text} (absent : (readFamily text).1 = none) :
    (readFamily text).2 = text := by
  unfold readFamily at absent ⊢
  split at absent
  · cases absent
  · rfl

/-- What is read from a text is canonical. -/
theorem canonical_ofText (text : Text) : (ofText text).Canonical := by
  obtain ⟨versionRun, noVersion⟩ := readVersion_spec text
  have address := readAddress_spec (readVersion text).2
  cases read : readAddress (readVersion text).2 with
  | mk names familiar =>
      obtain ⟨component, moduleName⟩ := names
      rw [read] at address
      obtain ⟨componentRun, moduleRun, addressed, noAddress, noModule⟩ := address
      have parts : ofText text = ⟨(readVersion text).1, component, moduleName,
          (readFamily familiar).1, (readFamily familiar).2⟩ := by
        simp only [ofText, read]
      rw [parts]
      refine ⟨versionRun, componentRun, moduleRun, addressed, ?_, ?_, ?_⟩
      · intro noFamily
        simpa only [readFamily_none noFamily] using noFamily
      · intro noFamily noComponent
        simpa only [readFamily_none noFamily] using noAddress noComponent
      · intro noFamily moduleAbsent versionAbsent
        obtain ⟨unread, whole⟩ := noVersion versionAbsent
        dsimp only
        rw [readFamily_none noFamily, noModule moduleAbsent, whole]
        exact unread

/-- A run of key characters and a mark in front of a text. -/
def LeadsWithRun (mark : Char) (text : Text) : Prop :=
  ∃ run rest, run.all isKeyChar ∧ text = run ++ mark :: rest

/-- A family and its mark in front of a text. -/
def LeadsWithFamily (text : Text) : Prop :=
  ∃ (family : Family) (rest : Text), text = family.name ++ '$' :: rest

theorem runBefore?_eq_some_iff {mark : Char} (other : isKeyChar mark = false) {text run rest : Text} :
    runBefore? mark text = some (run, rest) ↔ run.all isKeyChar ∧ text = run ++ mark :: rest := by
  constructor
  · intro read
    refine ⟨all_isKeyChar_of_runBefore? read, ?_⟩
    unfold runBefore? at read
    split at read
    · cases read
    · next c behind dropped =>
        split at read
        · next same =>
            cases read
            rw [← same, ← dropped, List.takeWhile_append_dropWhile]
        · cases read
  · rintro ⟨keyRun, rfl⟩
    exact runBefore?_append keyRun other rest

theorem runBefore?_eq_none_iff {mark : Char} (other : isKeyChar mark = false) {text : Text} :
    runBefore? mark text = none ↔ ¬ LeadsWithRun mark text := by
  constructor
  · rintro unread ⟨run, rest, spelled⟩
    rw [(runBefore?_eq_some_iff other).mpr spelled] at unread
    cases unread
  · intro unspelled
    cases read : runBefore? mark text with
    | none => rfl
    | some pair => exact absurd ⟨_, _, (runBefore?_eq_some_iff other).mp read⟩ unspelled

theorem readFamily_spec (text : Text) :
    (∃ family rest, readFamily text = (some family, rest) ∧ text = family.name ++ '$' :: rest) ∨
      readFamily text = (none, text) := by
  unfold readFamily
  split
  · next family found =>
      have leads : (family.name ++ ['$']).isPrefixOf text := by simpa using List.find?_some found
      obtain ⟨rest, rfl⟩ := List.isPrefixOf_iff_prefix.mp leads
      exact .inl ⟨family, rest, by simp, by simp⟩
  · exact .inr rfl

theorem readFamily_eq_none_iff {text : Text} : (readFamily text).1 = none ↔ ¬ LeadsWithFamily text := by
  constructor
  · rintro unread ⟨family, rest, rfl⟩
    have read := @readFamily_marked (some family) rest nofun
    simp only [Option.map_some, marked, List.append_assoc, List.singleton_append] at read
    rw [read] at unread
    cases unread
  · intro unspelled
    rcases readFamily_spec text with ⟨family, rest, _, spelled⟩ | unread
    · exact absurd ⟨family, rest, spelled⟩ unspelled
    · rw [unread]

theorem marked_readVersion (text : Text) :
    marked (readVersion text).1 '@' ++ (readVersion text).2 = text := by
  unfold readVersion
  cases read : runBefore? '@' text with
  | none => rfl
  | some pair =>
      obtain ⟨_, spelled⟩ := (runBefore?_eq_some_iff (by decide)).mp read
      simp [marked, spelled]

theorem marked_readAddress (text : Text) :
    marked (readAddress text).1.1 ':' ++ marked (readAddress text).1.2 ':' ++ (readAddress text).2 =
      text := by
  unfold readAddress
  cases read : runBefore? ':' text with
  | none => rfl
  | some pair =>
      obtain ⟨first, rest⟩ := pair
      obtain ⟨_, spelled⟩ := (runBefore?_eq_some_iff (by decide)).mp read
      cases readBehind : runBefore? ':' rest with
      | none => simp [marked, spelled, readBehind]
      | some pair =>
          obtain ⟨_, spelledBehind⟩ := (runBefore?_eq_some_iff (by decide)).mp readBehind
          simp [marked, spelled, readBehind, ← spelledBehind]

theorem marked_readFamily (text : Text) :
    marked ((readFamily text).1.map Family.name) '$' ++ (readFamily text).2 = text := by
  rcases readFamily_spec text with ⟨family, rest, read, spelled⟩ | unread
  · rw [read, spelled]
    exact List.append_assoc ..
  · rw [unread]
    rfl

theorem toText_ofText (text : Text) : (ofText text).toText = text := by
  have version := marked_readVersion text
  have address := marked_readAddress (readVersion text).2
  have family := marked_readFamily (readAddress (readVersion text).2).2
  calc
    (ofText text).toText =
        marked (readVersion text).1 '@' ++
          (marked (readAddress (readVersion text).2).1.1 ':' ++
            marked (readAddress (readVersion text).2).1.2 ':' ++
              (marked ((readFamily (readAddress (readVersion text).2).2).1.map Family.name) '$' ++
                (readFamily (readAddress (readVersion text).2).2).2)) := by
      simp only [toText, ofText, List.append_assoc]
    _ = text := by rw [family, address, version]

/-- Parts that can be told apart when they are written: runs of key characters, with a component only in
front of a module, and a remainder that does not go on where a part is absent. -/
structure Unambiguous (key : Key) : Prop where
  version : ∀ version ∈ key.version, version.all isKeyChar
  component : ∀ component ∈ key.component, component.all isKeyChar
  moduleName : ∀ moduleName ∈ key.moduleName, moduleName.all isKeyChar
  addressed : key.component.isSome → key.moduleName.isSome
  noFamily : key.family = none → ¬ LeadsWithFamily key.remainder
  noAddress : key.family = none → key.component = none → ¬ LeadsWithRun ':' key.remainder
  noVersion : key.version = none → key.moduleName = none → key.family = none →
    ¬ LeadsWithRun '@' key.remainder

theorem unambiguous_iff_canonical {key : Key} : key.Unambiguous ↔ key.Canonical := by
  have colon : runBefore? ':' key.remainder = none ↔ ¬ LeadsWithRun ':' key.remainder :=
    runBefore?_eq_none_iff (by decide)
  have atSign : runBefore? '@' key.remainder = none ↔ ¬ LeadsWithRun '@' key.remainder :=
    runBefore?_eq_none_iff (by decide)
  constructor
  · rintro ⟨version, component, moduleName, addressed, noFamily, noAddress, noVersion⟩
    exact ⟨version, component, moduleName, addressed,
      fun unnamed => readFamily_eq_none_iff.mpr (noFamily unnamed),
      fun unnamed bare => colon.mpr (noAddress unnamed bare),
      fun unnamed bare unversioned => atSign.mpr (noVersion unversioned bare unnamed)⟩
  · rintro ⟨version, component, moduleName, addressed, noFamily, noAddress, noVersion⟩
    exact ⟨version, component, moduleName, addressed,
      fun unnamed => readFamily_eq_none_iff.mp (noFamily unnamed),
      fun unnamed bare => colon.mp (noAddress unnamed bare),
      fun unversioned bare unnamed => atSign.mp (noVersion unnamed bare unversioned)⟩

/-- Reading a key loses nothing, and gives back the parts of every key that is written without ambiguity.
What is read is never ambiguous. -/
theorem reads_back_what_is_written :
    (∀ text : Text, (ofText text).toText = text ∧ (ofText text).Unambiguous) ∧
    ∀ key : Key, key.Unambiguous → ofText key.toText = key := by
  constructor
  · intro text
    exact ⟨toText_ofText text, unambiguous_iff_canonical.mpr (canonical_ofText text)⟩
  · intro key unambiguous
    exact ofText_toText (unambiguous_iff_canonical.mp unambiguous)

/-- Empty version and module, and a remainder with marks of its own. -/
theorem reads_back_what_is_written_before_marks :
    let key : Key := ⟨some [], none, some [], none, "a@image$b:"⟩
    key.Unambiguous ∧ key.toText = "@:a@image$b:" ∧ ofText "@:a@image$b:" = key := by
  intro key
  have unambiguous : key.Unambiguous := unambiguous_iff_canonical.mpr
    ⟨by decide, by decide, by decide, by decide, by decide, by decide, by decide⟩
  exact ⟨unambiguous, rfl, reads_back_what_is_written.2 key unambiguous⟩

end Key

end Crossref

import Crossref.Token.Lexer

/-! Lines that are block macros: a name, two colons, a target and attributes in brackets. -/

set_option autoImplicit false

namespace Crossref

namespace BlockMacro

/-- A line that invokes a macro: its name, a target, and attributes in brackets that end the line. -/
structure Invokes (line name target attributes : Text) : Prop where
  spelled : line = name ++ ':' :: ':' :: (target ++ '[' :: (attributes ++ [']']))
  word : ∃ first ∈ name.head?, Text.isWord first
  name : ∀ c ∈ name, Text.isNamePart c
  target : ∀ c ∈ target, c ≠ '[' ∧ Text.isBlank c = false
  attributes : ∀ c ∈ attributes, Text.isLineTerminator c = false

theorem Invokes.ofLine? {line name target attributes : Text}
    (invokes : Invokes line name target attributes) :
    ofLine? line = some ⟨name ++ "::", target, '[' :: (attributes ++ [']'])⟩ := by
  obtain ⟨rfl, ⟨first, starts, word⟩, nameParts, targetParts, plain⟩ := invokes
  obtain ⟨tail, rfl⟩ := List.head?_eq_some_iff.mp starts
  have nameTaken : (first :: tail ++ ':' :: ':' :: (target ++ '[' :: (attributes ++ [']']))).takeWhile
      Text.isNamePart = first :: tail := by
    rw [List.takeWhile_append_of_pos nameParts]
    exact List.append_nil _
  have nameDropped : (first :: tail ++ ':' :: ':' :: (target ++ '[' :: (attributes ++ [']']))).dropWhile
      Text.isNamePart = ':' :: ':' :: (target ++ '[' :: (attributes ++ [']'])) :=
    List.dropWhile_append_of_pos nameParts
  have inTarget : ∀ c ∈ target, (decide (c ≠ '[') && !Text.isBlank c) = true := by
    intro c mem
    obtain ⟨noBracket, noBlank⟩ := targetParts c mem
    rw [noBlank, decide_eq_true noBracket]
    rfl
  have targetTaken : (target ++ '[' :: (attributes ++ [']'])).takeWhile
      (fun c => decide (c ≠ '[') && !Text.isBlank c) = target := by
    rw [List.takeWhile_append_of_pos inTarget]
    exact List.append_nil _
  have targetDropped : (target ++ '[' :: (attributes ++ [']'])).dropWhile
      (fun c => decide (c ≠ '[') && !Text.isBlank c) = '[' :: (attributes ++ [']']) :=
    List.dropWhile_append_of_pos inTarget
  have oneLine : (attributes ++ [']']).any Text.isLineTerminator = false := by
    refine List.any_eq_false.mpr fun c mem => ?_
    rcases List.mem_append.mp mem with inner | closing
    · rw [plain c inner]
      exact Bool.false_ne_true
    · rw [List.mem_singleton.mp closing]
      decide
  rw [List.cons_append] at nameTaken nameDropped ⊢
  simp only [BlockMacro.ofLine?, nameTaken, nameDropped, word, targetTaken, targetDropped, oneLine,
    List.getLast?_concat, List.cons_append, Bool.not_true, Bool.not_false, Bool.and_true, decide_true,
    Bool.false_eq_true, if_false, if_true]

/-- A line that is read as a macro invokes it. -/
theorem exists_invokes_of_ofLine? {line : Text} {found : BlockMacro} (read : ofLine? line = some found) :
    ∃ name attributes, Invokes line name found.target attributes ∧
      found = ⟨name ++ "::", found.target, '[' :: (attributes ++ [']'])⟩ := by
  unfold ofLine? at read
  split at read
  · cases read
  · next first tail =>
      dsimp only at read
      split at read
      · cases read
      · next word =>
          split at read
          · next rest behindName =>
              split at read
              · next inner behindTarget =>
                  split at read
                  · next closes =>
                      cases read
                      simp only [Bool.and_eq_true, decide_eq_true_eq, Bool.not_eq_true'] at closes
                      obtain ⟨ends, oneLine⟩ := closes
                      obtain ⟨attributes, rfl⟩ := List.getLast?_eq_some_iff.mp ends
                      have isWord : Text.isWord first := by simpa using word
                      have isPart : Text.isNamePart first := by
                        rw [Text.isNamePart, isWord, Bool.true_or]
                      have starts : ((first :: tail).takeWhile Text.isNamePart).head? = some first := by
                        rw [List.takeWhile_cons_of_pos isPart]
                        rfl
                      have spelled : first :: tail = (first :: tail).takeWhile Text.isNamePart ++
                          ':' :: ':' :: (rest.takeWhile (fun c => c ≠ '[' && !Text.isBlank c) ++
                            '[' :: (attributes ++ [']'])) := by
                        rw [← behindTarget, List.takeWhile_append_dropWhile, ← behindName,
                          List.takeWhile_append_dropWhile]
                      refine ⟨_, attributes, ⟨spelled, ⟨first, starts, isWord⟩, ?_, ?_, ?_⟩, ?_⟩
                      · exact fun c mem => List.all_eq_true.mp List.all_takeWhile c mem
                      · intro c mem
                        simpa using List.all_eq_true.mp List.all_takeWhile c mem
                      · exact fun c mem => Bool.eq_false_iff.mpr
                          (List.any_eq_false.mp oneLine c (List.mem_append_left _ mem))
                      · rw [behindTarget]
                  · cases read
              · cases read
          · cases read

/-- A block macro is cut into its three parts without loss. -/
theorem parts_of_ofLine? {line : Text} {found : BlockMacro} (read : ofLine? line = some found) :
    found.id ++ found.target ++ found.attributes = line := by
  obtain ⟨name, attributes, invokes, whole⟩ := exists_invokes_of_ofLine? read
  rw [whole, invokes.spelled, List.append_assoc, List.append_assoc]
  rfl

theorem ofLine?_of_head? {line : Text} (other : ∀ first ∈ line.head?, Text.isWord first = false) :
    ofLine? line = none := by
  cases line with
  | nil => rfl
  | cons first rest =>
      have noWord := other first rfl
      simp only [ofLine?, noWord, Bool.not_false, if_true]

end BlockMacro

end Crossref

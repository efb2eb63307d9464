import Mathlib.Data.List.Basic
import Crossref.Attribute.Expansion

/-! Where a text refers to a name. A reference holds no brace inside, so references do not overlap, and
a search from the left finds every one of them. -/

set_option autoImplicit false

namespace Crossref

/-- Whether a name can stand in braces. -/
def isReferenceName (name : Text) : Bool := name.head?.any Text.isWord && name.all Text.isNamePart

theorem notMem_of_isReferenceName {name : Text} (isName : isReferenceName name) {c : Char}
    (other : Text.isNamePart c = false) : c ∉ name := fun mem =>
  Bool.eq_false_iff.mp other (List.all_eq_true.mp (Bool.and_eq_true_iff.mp isName).2 c mem)

/-- Somewhere in the text the name stands in braces. -/
def Refers (text name : Text) : Prop :=
  isReferenceName name ∧ ∃ before behind, text = before ++ '{' :: name ++ '}' :: behind

namespace Refers

variable {text front back name : Text} {c : Char}

theorem append_left (refers : Refers text name) (front : Text) : Refers (front ++ text) name := by
  obtain ⟨isName, before, behind, rfl⟩ := refers
  exact ⟨isName, front ++ before, behind, by simp⟩

theorem of_cons (refers : Refers (c :: text) name) :
    c = '{' ∧ (∃ behind, text = name ++ '}' :: behind) ∨ Refers text name := by
  obtain ⟨isName, before, behind, same⟩ := refers
  cases before with
  | nil =>
      cases same
      exact .inl ⟨rfl, behind, rfl⟩
  | cons first rest =>
      cases same
      exact .inr ⟨isName, rest, behind, rfl⟩

/-- A text without a closing brace that precedes one in a longer text precedes the first one. -/
theorem closing_of_append {behind : Text} (clear : '}' ∉ name)
    (same : front ++ '}' :: back = name ++ '}' :: behind) :
    ∃ rest, front ++ ['}'] = name ++ '}' :: rest := by
  rcases List.append_eq_append_iff.mp same with ⟨cut, rfl, split⟩ | ⟨cut, rfl, split⟩
  · cases cut with
    | nil => exact ⟨[], by simp⟩
    | cons first rest =>
        cases split
        exact absurd (List.mem_append_right _ List.mem_cons_self) clear
  · cases cut with
    | nil => exact ⟨[], by simp⟩
    | cons first rest =>
        cases split
        exact ⟨rest ++ ['}'], by simp⟩

/-- A cut behind a closing brace goes through no reference. -/
theorem of_append (refers : Refers (front ++ '}' :: back) name) :
    Refers (front ++ ['}']) name ∨ Refers back name := by
  induction front with
  | nil =>
      rcases of_cons refers with ⟨opening, _⟩ | behind
      · cases opening
      · exact .inr behind
  | cons first rest ih =>
      rcases of_cons refers with ⟨rfl, behind, same⟩ | later
      · obtain ⟨isName, _⟩ := refers
        obtain ⟨tail, closed⟩ :=
          closing_of_append (notMem_of_isReferenceName isName (by decide)) same
        exact .inl ⟨isName, [], tail, by rw [List.cons_append, closed]; rfl⟩
      · exact (ih later).imp_left fun early => early.append_left [first]

end Refers

namespace ReferenceSplit

variable {text : Text} {found : ReferenceSplit}

theorem atStart?_eq_some_iff {name behind : Text} :
    atStart? text = some (name, behind) ↔
      isReferenceName name ∧ text = '{' :: name ++ '}' :: behind := by
  constructor
  · intro read
    unfold atStart? at read
    split at read
    · next first rest =>
        dsimp only at read
        split at read
        · next tail dropped =>
            split at read
            · next word =>
                cases read
                refine ⟨?_, ?_⟩
                · simp [isReferenceName, Text.isNamePart, word]
                · rw [← dropped, List.cons_append, List.cons_append, List.takeWhile_append_dropWhile]
            · cases read
        · cases read
    · cases read
  · rintro ⟨isName, rfl⟩
    cases name with
    | nil => cases isName
    | cons first rest =>
        obtain ⟨word, parts⟩ := Bool.and_eq_true_iff.mp isName
        have restParts : ∀ c ∈ rest, Text.isNamePart c := fun c mem =>
          List.all_eq_true.mp parts c (List.mem_cons_of_mem _ mem)
        have ends : Text.isNamePart '}' = false := by decide
        have starts : Text.isWord first := word
        simp [atStart?, List.takeWhile_append_of_pos restParts, List.dropWhile_append_of_pos restParts,
          ends, starts]

/-- Nothing is found exactly in a text that refers to no name. -/
theorem find?_eq_none_iff : find? text = none ↔ ∀ name, ¬ Refers text name := by
  induction text with
  | nil =>
      refine ⟨fun _ name refers => ?_, fun _ => rfl⟩
      obtain ⟨_, before, behind, same⟩ := refers
      simp at same
  | cons c rest ih =>
      rw [find?]
      cases start : atStart? (c :: rest) with
      | some pair =>
          obtain ⟨name, behind⟩ := pair
          obtain ⟨isName, split⟩ := atStart?_eq_some_iff.mp start
          refine ⟨fun absent => ?_, fun absent => ?_⟩
          · cases absent
          · exact absurd ⟨isName, [], behind, split⟩ (absent name)
      | none =>
          rw [Option.map_eq_none_iff, ih]
          refine ⟨fun absent name refers => ?_,
            fun absent name refers => absent name (refers.append_left [c])⟩
          rcases refers.of_cons with ⟨rfl, behind, same⟩ | later
          · exact nomatch start.symm.trans (atStart?_eq_some_iff.mpr ⟨refers.1, congrArg _ same⟩)
          · exact absent name later

theorem split_of_find? (split : find? text = some found) :
    isReferenceName found.name ∧ text = found.before ++ found.source ++ found.behind := by
  induction text generalizing found with
  | nil => cases split
  | cons c rest ih =>
      rw [find?] at split
      cases start : atStart? (c :: rest) with
      | some pair =>
          rw [start] at split
          cases split
          obtain ⟨isName, same⟩ := atStart?_eq_some_iff.mp start
          exact ⟨isName, by simpa [source] using same⟩
      | none =>
          rw [start] at split
          obtain ⟨inner, innerFound, rfl⟩ := Option.map_eq_some_iff.mp split
          obtain ⟨isName, same⟩ := ih innerFound
          exact ⟨isName, congrArg (c :: ·) same⟩

theorem refers_of_find? (split : find? text = some found) : Refers text found.name := by
  obtain ⟨isName, same⟩ := split_of_find? split
  exact ⟨isName, found.before, found.behind, by simpa [source] using same⟩

/-- What is found is the first reference: up to its closing brace there is no other one. -/
theorem name_eq_of_refers (split : find? text = some found) {name : Text}
    (refers : Refers (found.before ++ found.source) name) : name = found.name := by
  induction text generalizing found with
  | nil => cases split
  | cons c rest ih =>
      rw [find?] at split
      cases start : atStart? (c :: rest) with
      | some pair =>
          obtain ⟨other, behind⟩ := pair
          rw [start] at split
          cases split
          obtain ⟨isName, _⟩ := atStart?_eq_some_iff.mp start
          have inside : Refers ('{' :: (other ++ ['}'])) name := refers
          rcases inside.of_cons with ⟨_, tail, same⟩ | later
          · have noClosing : '}' ∉ other := notMem_of_isReferenceName isName (by decide)
            exact ((List.append_cons_inj_of_notMem noClosing List.not_mem_nil).mp same).1.symm
          · obtain ⟨_, before, tail, same⟩ := later
            have opening : '{' ∈ other ++ ['}'] := by rw [same]; simp
            have noOpening : '{' ∉ other := notMem_of_isReferenceName isName (by decide)
            simp [noOpening] at opening
      | none =>
          rw [start] at split
          obtain ⟨inner, innerFound, rfl⟩ := Option.map_eq_some_iff.mp split
          rcases refers.of_cons with ⟨rfl, tail, same⟩ | later
          · have behind : inner.before ++ inner.source = name ++ '}' :: tail := same
            have starts : atStart? ('{' :: rest) = some (name, tail ++ inner.behind) := by
              refine atStart?_eq_some_iff.mpr ⟨refers.1, ?_⟩
              rw [(split_of_find? innerFound).2, behind]
              simp
            exact nomatch start.symm.trans starts
          · have first : name = inner.name := ih innerFound later
            exact first

end ReferenceSplit

end Crossref

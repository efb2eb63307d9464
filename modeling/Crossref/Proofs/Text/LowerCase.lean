import Mathlib.Data.List.Basic
import Crossref.Text.LowerCase

/-! Lower-casing and dots. A character becomes one or two others, and none but the dot becomes a dot. -/

set_option autoImplicit false

namespace Crossref.Text

/-- No letter with a lower-case partner is near enough to the dot. -/
theorem lowerCaseRuns_above_dot :
    ∀ run ∈ lowerCaseRuns, ('.'.toNat : Int) < run.first + run.offset := by decide +kernel

theorem ofNat_ne_dot {code : Nat} (other : code ≠ '.'.toNat) : Char.ofNat code ≠ '.' := by
  intro same
  have number := congrArg Char.toNat same
  by_cases valid : code.isValidChar
  · rw [Char.ofNat, dif_pos valid] at number
    exact other number
  · rw [Char.ofNat, dif_neg valid] at number
    cases number

theorem toLower_ne_dot {c : Char} (other : c ≠ '.') : c.toLower ≠ '.' := by
  delta Char.toLower
  split
  · next capital =>
      intro same
      have number : c.val + 32 = 46 := congrArg Char.val same
      have least : 65 ≤ c.val := capital.1
      have most : c.val ≤ 90 := capital.2
      grind
  · exact other

theorem lowerChar_ne_dot {c : Char} (other : c ≠ '.') : lowerChar c ≠ '.' := by
  rw [lowerChar]
  split
  · exact toLower_ne_dot other
  · split
    · next run found =>
        have above := lowerCaseRuns_above_dot run (List.mem_of_find?_eq_some found)
        have within := List.find?_some found
        simp only [Bool.and_eq_true, decide_eq_true_eq] at within
        exact ofNat_ne_dot (by omega)
    · exact other

/-- What a character becomes stands in front of what the rest becomes. -/
theorem lowerAfter_cons (before : Text) (c : Char) (rest : Text) :
    ∃ lowered : Text, lowerAfter before (c :: rest) = lowered ++ lowerAfter (c :: before) rest ∧
      lowered ≠ [] ∧ (c = '.' → lowered = ['.']) ∧ (c ≠ '.' → '.' ∉ lowered) := by
  refine ⟨_, rfl, ?_, ?_, ?_⟩
  · split
    · split <;> exact List.cons_ne_nil _ _
    · split <;> exact List.cons_ne_nil _ _
  · rintro rfl
    rfl
  · intro other
    split
    · split <;> decide
    · split
      · decide
      · exact fun dot => lowerChar_ne_dot other (List.mem_singleton.mp dot).symm

theorem mem_dot_lowerAfter {before text : Text} : '.' ∈ lowerAfter before text ↔ '.' ∈ text := by
  induction text generalizing before with
  | nil => rfl
  | cons c rest ih =>
      obtain ⟨lowered, spelled, _, dot, noDot⟩ := lowerAfter_cons before c rest
      rw [spelled, List.mem_append, ih, List.mem_cons]
      by_cases isDot : c = '.'
      · rw [dot isDot, isDot]
        simp
      · have other : ¬ '.' = c := fun same => isDot same.symm
        simp [noDot isDot, other]

theorem lowerAfter_eq_nil_iff {before text : Text} : lowerAfter before text = [] ↔ text = [] := by
  cases text with
  | nil => exact iff_of_true rfl rfl
  | cons c rest =>
      obtain ⟨lowered, spelled, nonempty, _⟩ := lowerAfter_cons before c rest
      rw [spelled]
      simp [nonempty]

/-- A dot and a name without dots, such as the extension of a file name is. -/
def IsDotted (text : Text) : Prop := ∃ name, text = '.' :: name ∧ name ≠ [] ∧ '.' ∉ name

theorem isDotted_lower_iff {text : Text} : IsDotted (lower text) ↔ IsDotted text := by
  cases text with
  | nil =>
      constructor
      · rintro ⟨name, same, _⟩
        cases same
      · rintro ⟨name, same, _⟩
        cases same
  | cons c rest =>
      obtain ⟨lowered, spelled, nonempty, dot, noDot⟩ := lowerAfter_cons [] c rest
      rw [lower, spelled]
      by_cases isDot : c = '.'
      · rw [dot isDot, isDot]
        simp [IsDotted, lowerAfter_eq_nil_iff, mem_dot_lowerAfter]
      · obtain ⟨first, others, rfl⟩ := List.exists_cons_of_ne_nil nonempty
        constructor
        · rintro ⟨name, same, _⟩
          cases same
          exact absurd List.mem_cons_self (noDot isDot)
        · rintro ⟨name, same, _⟩
          cases same
          exact absurd rfl isDot

end Crossref.Text

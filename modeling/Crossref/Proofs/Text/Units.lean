import Mathlib.Data.List.Flatten
import Crossref.Text.Units

/-! What code units say about characters. No character starts with the units of another one, so a text
whose units start with those of a second text starts with that text; and the order of units is
total. -/

set_option autoImplicit false

namespace Crossref.Text

theorem units_append (left right : Text) : units (left ++ right) = units left ++ units right := by
  simp [units]

theorem charUnits_length_pos (c : Char) : 0 < (charUnits c).length := by
  unfold charUnits
  split <;> simp

theorem width_cons (c : Char) (rest : Text) : width (c :: rest) = (charUnits c).length + width rest := by
  simp [width, units]

theorem width_le_of_sublist {kept text : Text} (sub : kept.Sublist text) : width kept ≤ width text :=
  (sub.flatMap charUnits).length_le

/-- Every character that is left out is missing from the width. -/
theorem width_lt_of_sublist {kept text : Text} (sub : kept.Sublist text) (shorter : kept.length < text.length) :
    width kept < width text := by
  induction sub with
  | slnil => cases shorter
  | cons c rest _ =>
      have positive := charUnits_length_pos c
      have below := width_le_of_sublist rest
      rw [width_cons]
      omega
  | cons_cons c _ ih =>
      rw [width_cons, width_cons]
      exact Nat.add_lt_add_left (ih (Nat.lt_of_succ_lt_succ shorter)) _

/-- The first character of a text can be told from the units of the text. -/
theorem eq_of_charUnits_append_eq {c d : Char} {left right : List Nat}
    (same : charUnits c ++ left = charUnits d ++ right) : c = d ∧ left = right := by
  have valid : ∀ c : Char, c.toNat < 0xD800 ∨ 0xDFFF < c.toNat ∧ c.toNat < 0x110000 := fun c => c.valid
  have firstValid := valid c
  have secondValid := valid d
  unfold charUnits at same
  -- a unit of its own is no surrogate, so both characters have as many units
  split at same <;> split at same <;>
    simp only [List.cons_append, List.nil_append, List.cons.injEq] at same
  · exact ⟨Char.toNat_inj.mp same.1, same.2⟩
  · omega
  · omega
  · exact ⟨Char.toNat_inj.mp (by omega), same.2.2⟩

theorem prefix_of_units_prefix {front text : Text} (starts : units front <+: units text) :
    front <+: text := by
  induction front generalizing text with
  | nil => exact List.nil_prefix
  | cons c rest ih =>
      obtain ⟨behind, same⟩ := starts
      cases text with
      | nil =>
          have nothing : charUnits c = [] := by simp_all [units]
          unfold charUnits at nothing
          split at nothing <;> cases nothing
      | cons d others =>
          simp only [units, List.flatMap_cons, List.append_assoc] at same
          obtain ⟨rfl, further⟩ := eq_of_charUnits_append_eq same
          exact List.cons_prefix_cons.mpr ⟨rfl, ih ⟨behind, further⟩⟩

theorem length_le_sharedLength (front left right : List Nat) :
    front.length ≤ sharedLength (front ++ left) (front ++ right) := by
  induction front with
  | nil => exact Nat.zero_le _
  | cons first rest ih =>
      rw [List.cons_append, List.cons_append, sharedLength, if_pos rfl]
      exact Nat.succ_le_succ ih

theorem take_sharedLength (left right : List Nat) :
    left.take (sharedLength left right) = right.take (sharedLength left right) := by
  induction left generalizing right with
  | nil => cases right <;> rfl
  | cons first rest ih =>
      cases right with
      | nil => rfl
      | cons second others =>
          rw [sharedLength]
          split
          · next same => rw [List.take_succ_cons, List.take_succ_cons, same, ih]
          · rfl

/-- Texts with one front share its width. -/
theorem width_le_sharedUnits {front left right : Text} (leftStarts : front <+: left)
    (rightStarts : front <+: right) : width front ≤ sharedUnits left right := by
  obtain ⟨leftRest, rfl⟩ := leftStarts
  obtain ⟨rightRest, rfl⟩ := rightStarts
  rw [width, sharedUnits, units_append, units_append]
  exact length_le_sharedLength _ _ _

/-- A text that shares the width of the front of another one has the same front. -/
theorem prefix_of_width_le_sharedUnits {front left right : Text} (starts : front <+: right)
    (shared : width front ≤ sharedUnits left right) : front <+: left := by
  obtain ⟨rest, rfl⟩ := starts
  rw [width, sharedUnits] at shared
  refine prefix_of_units_prefix (List.prefix_iff_eq_take.mpr ?_)
  have same := congrArg (List.take (units front).length)
    (take_sharedLength (units left) (units (front ++ rest)))
  rw [List.take_take, List.take_take, Nat.min_eq_left shared, units_append, List.take_left] at same
  exact same.symm

theorem unitsLe_trans {left middle right : List Nat} (first : unitsLe left middle)
    (second : unitsLe middle right) : unitsLe left right := by
  induction left generalizing middle right with
  | nil => rfl
  | cons a rest ih =>
      cases middle with
      | nil => cases first
      | cons b others =>
          cases right with
          | nil => cases second
          | cons c further =>
              simp only [unitsLe] at first second ⊢
              by_cases ab : a = b
              · subst ab
                by_cases ac : a = c
                · simp only [if_pos ac] at second ⊢
                  exact ih (by simpa using first) second
                · simpa only [if_neg ac] using second
              · simp only [if_neg ab, decide_eq_true_eq] at first
                by_cases bc : b = c
                · rw [if_neg (bc ▸ ab)]
                  exact decide_eq_true (bc ▸ first)
                · simp only [if_neg bc, decide_eq_true_eq] at second
                  rw [if_neg (by omega)]
                  exact decide_eq_true (by omega)

theorem unitsLe_total (left right : List Nat) : unitsLe left right || unitsLe right left := by
  induction left generalizing right with
  | nil => rfl
  | cons a rest ih =>
      cases right with
      | nil => rfl
      | cons b others =>
          by_cases same : a = b
          · simpa [unitsLe, same] using ih others
          · simp only [unitsLe, if_neg same, if_neg (Ne.symm same), Bool.or_eq_true, decide_eq_true_eq]
            omega

theorem unitsLe_antisymm {left right : List Nat} (forward : unitsLe left right)
    (backward : unitsLe right left) : left = right := by
  induction left generalizing right with
  | nil =>
      cases right with
      | nil => rfl
      | cons b others => cases backward
  | cons a rest ih =>
      cases right with
      | nil => cases forward
      | cons b others =>
          simp only [unitsLe] at forward backward
          by_cases same : a = b
          · subst same
            rw [ih (by simpa using forward) (by simpa using backward)]
          · simp only [if_neg same, if_neg (Ne.symm same), decide_eq_true_eq] at forward backward
            omega

theorem units_injective {left right : Text} (same : units left = units right) : left = right := by
  have starts : left <+: right := prefix_of_units_prefix (same ▸ List.prefix_rfl)
  have ends : right <+: left := prefix_of_units_prefix (same ▸ List.prefix_rfl)
  exact starts.eq_of_length (Nat.le_antisymm starts.length_le ends.length_le)

theorem le_antisymm {left right : Text} (forward : le left right) (backward : le right left) :
    left = right := units_injective (unitsLe_antisymm forward backward)

theorem le_trans (first second third : Text) (left : le first second) (right : le second third) :
    le first third := unitsLe_trans left right

theorem le_total (left right : Text) : le left right || le right left := unitsLe_total _ _

theorem pairwise_sort (texts : List Text) : (sort texts).Pairwise fun left right => le left right :=
  List.pairwise_mergeSort le_trans le_total texts

/-- The order of what is sorted leaves no trace. -/
theorem sort_eq_of_perm {texts others : List Text} (perm : texts.Perm others) : sort texts = sort others :=
  (((List.mergeSort_perm texts le).trans perm).trans (List.mergeSort_perm others le).symm).eq_of_pairwise
    (fun _ _ _ _ => le_antisymm) (pairwise_sort texts) (pairwise_sort others)

end Crossref.Text

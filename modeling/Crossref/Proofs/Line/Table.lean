import Crossref.Line.Table
import Crossref.Proofs.Text.Units

/-! The line of an offset is one more than the number of line feeds before it. The search by halving
keeps two facts: the line at its lower end starts at or before the offset, unless it is the first
one searched, and every line above its upper end starts behind the offset. -/

set_option autoImplicit false

namespace Crossref.LineTable

/-- What the search by halving finds in ascending starts. -/
theorem search_spec (starts : Array Nat) (ascending : starts.toList.Pairwise (· < ·))
    (offset : Int) (low high : Nat) (bound : high < starts.size) (ordered : low ≤ high) :
    let found := search starts offset low high bound
    low ≤ found ∧ found ≤ high ∧
      (∀ start, starts[found]? = some start → found = low ∨ (start : Int) ≤ offset) ∧
      ∀ index start, found < index → index ≤ high → starts[index]? = some start →
        offset < start := by
  intro found
  have monotone : ∀ (left right : Nat) (leftBound : left < starts.size)
      (rightBound : right < starts.size), left ≤ right → starts[left] ≤ starts[right] := by
    intro left right leftBound rightBound order
    rcases Nat.lt_or_eq_of_le order with less | rfl
    · exact Nat.le_of_lt (List.pairwise_iff_getElem.mp ascending left right
        (by simpa using leftBound) (by simpa using rightBound) less)
    · exact Nat.le_refl _
  fun_induction search starts offset low high bound with
  | case1 low high bound lower middle inside before ih =>
      obtain ⟨above, below, starting, behind⟩ := ih (by omega)
      refine ⟨by omega, below, ?_, behind⟩
      intro start read
      rcases starting start read with same | before'
      · have sameStart : starts[middle] = start := by
          rw [Array.getElem?_eq_some_iff] at read
          obtain ⟨_, read⟩ := read
          simpa only [found, same] using read
        exact .inr (sameStart ▸ before)
      · exact .inr before'
  | case2 low high bound lower middle inside after ih =>
      obtain ⟨above, below, starting, behind⟩ := ih (by omega)
      refine ⟨above, by omega, starting, ?_⟩
      intro index start higher within read
      by_cases near : index ≤ middle - 1
      · exact behind index start higher near read
      · obtain ⟨indexBound, read⟩ := Array.getElem?_eq_some_iff.mp read
        have order := monotone middle index inside indexBound (by omega)
        omega
  | case3 low high bound notLower =>
      refine ⟨Nat.le_refl _, ordered, fun _ _ => .inl rfl, ?_⟩
      intro index start higher within
      simp only [found] at higher
      omega

@[simp] theorem startsAfter_append (offset : Nat) (front back : Text) :
    startsAfter offset (front ++ back) =
      startsAfter offset front ++ startsAfter (offset + Text.width front) back := by
  induction front generalizing offset with
  | nil => simp [startsAfter, Text.width_nil]
  | cons c rest ih =>
      simp only [List.cons_append, startsAfter, ih, Text.width_cons, ← Nat.add_assoc]
      split <;> simp

/-- Lines start behind the offset of the text and at most at its end. -/
theorem startsAfter_bounds {offset start : Nat} {text : Text} (member : start ∈ startsAfter offset text) :
    offset < start ∧ start ≤ offset + Text.width text := by
  induction text generalizing offset with
  | nil => cases member
  | cons c rest ih =>
      have positive := Text.charUnits_length_pos c
      have width := Text.width_cons c rest
      have later : start ∈ startsAfter (offset + (Text.charUnits c).length) rest →
          offset < start ∧ start ≤ offset + Text.width (c :: rest) := by
        intro behind
        have := ih behind
        omega
      simp only [startsAfter] at member
      split at member
      · rcases List.mem_cons.mp member with rfl | behind
        · omega
        · exact later behind
      · exact later member

theorem startsAfter_ascending (offset : Nat) (text : Text) :
    (startsAfter offset text).Pairwise (· < ·) := by
  induction text generalizing offset with
  | nil => exact .nil
  | cons c rest ih =>
      simp only [startsAfter]
      split
      · exact List.pairwise_cons.mpr ⟨fun _ member => (startsAfter_bounds member).1, ih _⟩
      · exact ih _

theorem length_startsAfter (offset : Nat) (text : Text) :
    (startsAfter offset text).length = text.count '\n' := by
  induction text generalizing offset with
  | nil => rfl
  | cons c rest ih =>
      by_cases feed : c = '\n'
      · simp [startsAfter, feed, ih]
      · simp [startsAfter, feed, ih]

/-- Counting what holds for the front part of a list only. -/
private theorem countP_of_front {α : Type} (accepts : α → Bool) (items : List α) (count : Nat)
    (within : count ≤ items.length) (front : ∀ item ∈ items.take count, accepts item)
    (back : ∀ item ∈ items.drop count, ¬ accepts item) : items.countP accepts = count := by
  calc
    items.countP accepts = (items.take count ++ items.drop count).countP accepts := by
      rw [List.take_append_drop]
    _ = (items.take count).length + 0 := by
      rw [List.countP_append, List.countP_eq_length.mpr front, List.countP_eq_zero.mpr back]
    _ = count := by
      rw [Nat.add_zero, List.length_take_of_le within]

/-- The line of any offset, also before and behind the text. -/
theorem lineOf_ofText (text : Text) (offset : Int) :
    (ofText text).lineOf offset =
      1 + (startsAfter 0 text).countP fun start : Nat => decide ((start : Int) ≤ offset) := by
  have ascending : ((ofText text).starts).toList.Pairwise (· < ·) := by
    refine List.pairwise_cons.mpr ⟨fun _ member => ?_, startsAfter_ascending 0 text⟩
    exact (startsAfter_bounds member).1
  have spec := search_spec (ofText text).starts ascending offset 0 ((ofText text).starts.size - 1)
    (by have := (ofText text).starts_nonempty; omega) (Nat.zero_le _)
  simp only [lineOf]
  generalize search (ofText text).starts offset 0 ((ofText text).starts.size - 1) _ = found at spec
  obtain ⟨_, below, starting, behind⟩ := spec
  have size : (ofText text).starts.size = (startsAfter 0 text).length + 1 := by
    simp [ofText]
  have read : ∀ index, (ofText text).starts[index + 1]? = (startsAfter 0 text)[index]? := by
    intro index
    simp [ofText]
  rw [countP_of_front _ _ found (by omega), Nat.add_comm]
  · intro start member
    obtain ⟨index, indexBound, rfl⟩ := List.mem_take_iff_getElem.mp member
    cases found with
    | zero => omega
    | succ last =>
        have lastBound : last < (startsAfter 0 text).length := by omega
        have reached := starting ((startsAfter 0 text)[last]) (by rw [read]; simp)
        have atLast : ((startsAfter 0 text)[last] : Int) ≤ offset := by omega
        rcases Nat.lt_or_ge index last with less | same
        · have order := List.pairwise_iff_getElem.mp (startsAfter_ascending 0 text) index last
            (by omega) lastBound less
          simp only [decide_eq_true_eq]
          omega
        · have : index = last := by omega
          subst this
          simpa using atLast
  · intro start member
    obtain ⟨index, indexBound, rfl⟩ := List.mem_drop_iff_getElem.mp member
    have := behind (found + index + 1) ((startsAfter 0 text)[found + index]) (by omega) (by omega)
      (by rw [read]; simp)
    simp only [decide_eq_true_eq]
    omega

/-- The line that starts or goes on behind a front part of a text. -/
theorem lineOf_width (front back : Text) :
    (ofText (front ++ back)).lineOf (Text.width front) = 1 + front.count '\n' := by
  rw [lineOf_ofText, startsAfter_append, countP_of_front _ _ (front.count '\n')]
  · simp [length_startsAfter]
  · intro start member
    rw [← length_startsAfter 0 front, List.take_left] at member
    have := (startsAfter_bounds member).2
    simp only [decide_eq_true_eq]
    omega
  · intro start member
    rw [← length_startsAfter 0 front, List.drop_left] at member
    have := (startsAfter_bounds member).1
    simp only [decide_eq_true_eq]
    omega

end Crossref.LineTable

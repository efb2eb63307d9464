import Crossref.Proofs.Token.Classifier

/-! Exact line numbers. The line of an offset counts the line feeds among the code units before it, whether or not the
offset lies between two characters, and it agrees with the lines that a text is cut into. -/

set_option autoImplicit false

namespace Crossref

namespace Text

/-- A line feed is one code unit, and no other character has this unit. -/
theorem feed_mem_charUnits {c : Char} (mem : 10 ∈ charUnits c) : c = '\n' := by
  unfold charUnits at mem
  split at mem
  · exact Char.toNat_inj.mp (List.mem_singleton.mp mem).symm
  · rcases List.mem_pair.mp mem with high | low
    · omega
    · omega

end Text

namespace Line

/-- Where a line stands among the lines of a text: as many feeds come before it as lines, and a line without a break is
the last one. -/
theorem Cut.getElem?_spec {lines : List Line} (cut : Cut lines) {index : Nat} {line : Line}
    (read : lines[index]? = some line) :
    ((lines.take index).flatMap text).count '\n' = index ∧ '\n' ∉ line.content ∧
      (line.ending = [] ∧ index + 1 = lines.length ∨ IsBreak line.ending) := by
  induction cut generalizing index with
  | last single =>
      cases index with
      | zero =>
          cases read
          exact ⟨rfl, single, .inl ⟨rfl, rfl⟩⟩
      | succ => cases read
  | @cons first rest single ended _ ih =>
      cases index with
      | zero =>
          cases read
          exact ⟨rfl, single, .inr ended⟩
      | succ index =>
          obtain ⟨feeds, within, place⟩ := ih read
          refine ⟨?_, within, place.imp_left fun ⟨unended, isLast⟩ => ⟨unended, congrArg (· + 1) isLast⟩⟩
          rw [List.take_succ_cons, List.flatMap_cons, List.count_append, feeds, count_text_of_isBreak single ended,
            Nat.add_comm]

/-- The feed of a line that has a break is its last character and its only one. -/
theorem IsBreak.exists_text {line : Line} (ended : IsBreak line.ending) (single : '\n' ∉ line.content) :
    ∃ before, line.text = before ++ ['\n'] ∧ before.count '\n' = 0 := by
  rw [text]
  rcases ended with feed | returned
  · exact ⟨line.content, by rw [feed], List.count_eq_zero_of_not_mem single⟩
  · refine ⟨line.content ++ ['\r'], by rw [returned, List.append_assoc]; rfl, ?_⟩
    rw [List.count_append, List.count_eq_zero_of_not_mem single]
    rfl

end Line

namespace LineTable

/-- The starts of lines up to an offset are the feeds before it. -/
theorem countP_startsAfter (base : Nat) (text : Text) (offset : Int) :
    ((startsAfter base text).countP fun start : Nat => decide ((start : Int) ≤ offset)) =
      ((Text.units text).take (offset - base).toNat).count 10 := by
  induction text generalizing base with
  | nil => simp [startsAfter, Text.units]
  | cons c rest ih =>
      have units : Text.units (c :: rest) = Text.charUnits c ++ Text.units rest := List.flatMap_cons
      have remaining : (offset - base).toNat - (Text.charUnits c).length =
          (offset - (base + (Text.charUnits c).length : Nat)).toNat := by
        omega
      rw [units, List.take_append, List.count_append, remaining, ← ih]
      by_cases feed : c = '\n'
      · have single : Text.charUnits c = [10] := by
          rw [feed]
          rfl
        rw [startsAfter, if_pos feed, List.countP_cons, single, Nat.add_comm]
        congr 1
        by_cases before : ((base + 1 : Nat) : Int) ≤ offset
        · obtain ⟨more, count⟩ := Nat.exists_eq_succ_of_ne_zero (n := (offset - base).toNat) (by omega)
          rw [count, List.take_succ_cons, List.take_nil]
          simpa using before
        · have none : (offset - base).toNat = 0 := by omega
          rw [none, List.take_zero]
          simpa using before
      · have other : ((Text.charUnits c).take (offset - base).toNat).count 10 = 0 :=
          List.count_eq_zero_of_not_mem fun mem => feed (Text.feed_mem_charUnits (List.mem_of_mem_take mem))
        rw [startsAfter, if_neg feed, other, Nat.zero_add]

theorem lineOf_eq_count (text : Text) (offset : Int) :
    (ofText text).lineOf offset = 1 + ((Text.units text).take offset.toNat).count 10 := by
  rw [lineOf_ofText, countP_startsAfter, Int.natCast_zero, Int.sub_zero]

theorem lineOf_mono (text : Text) {left right : Int} (order : left ≤ right) :
    (ofText text).lineOf left ≤ (ofText text).lineOf right := by
  rw [lineOf_eq_count, lineOf_eq_count]
  have front := List.take_sublist_take_left (l := Text.units text) (Int.toNat_le_toNat order)
  exact Nat.add_le_add_left (front.count_le 10) 1

theorem lineOf_behind (text : Text) {offset : Int} (behind : Text.width text ≤ offset) :
    (ofText text).lineOf offset = (Line.ofText text).length := by
  have atEnd := lineOf_width text []
  have whole : (Text.units text).take (Text.width text) = Text.units text := List.take_length
  rw [List.append_nil, lineOf_eq_count, Int.toNat_natCast, whole] at atEnd
  have long : (Text.units text).length ≤ offset.toNat := Int.toNat_le_toNat behind
  rw [lineOf_eq_count, List.take_of_length_le long, atEnd, Line.length_ofText, Nat.add_comm]

theorem lineOf_le_length (text : Text) (offset : Int) :
    (ofText text).lineOf offset ≤ (Line.ofText text).length := by
  rw [← lineOf_behind text (Int.le_max_right offset (Text.width text))]
  exact lineOf_mono text (Int.le_max_left offset (Text.width text))

/-- The search by halving as a loop: it may run out of turns, and it may ask for a start that is not in the table. -/
def searchTurns? (starts : Array Nat) (offset : Int) : Nat → Nat → Nat → Option Nat
  | 0, low, high => if low < high then none else some low
  | turns + 1, low, high =>
    if low < high then
      let middle := (low + high + 1) / 2
      match starts[middle]? with
      | none => none
      | some start =>
        if (start : Int) ≤ offset then searchTurns? starts offset turns middle high
        else searchTurns? starts offset turns low (middle - 1)
    else some low

/-- Each turn halves what is left to search, and the middle of it lies in the table. -/
theorem searchTurns?_eq_search {starts : Array Nat} (offset : Int) {turns low high : Nat}
    (bound : high < starts.size) (enough : high - low < 2 ^ turns) :
    searchTurns? starts offset turns low high = some (search starts offset low high bound) := by
  induction turns generalizing low high with
  | zero =>
      have ended : ¬ low < high := by
        rw [Nat.pow_zero] at enough
        omega
      rw [searchTurns?, search, if_neg ended, dif_neg ended]
  | succ turns ih =>
      rw [Nat.pow_succ] at enough
      rw [searchTurns?, search]
      by_cases lower : low < high
      · have inside : (low + high + 1) / 2 < starts.size := by omega
        rw [if_pos lower, dif_pos lower]
        simp only [Array.getElem?_eq_getElem inside]
        split
        · exact ih bound (by omega)
        · exact ih (by omega) (by omega)
      · rw [if_neg lower, dif_neg lower]

theorem size_starts (text : Text) : (ofText text).starts.size = (Line.ofText text).length := by
  rw [Line.length_ofText, ← length_startsAfter 0]
  rfl

/-- The lookup agrees with the lines of a text from the start of a line up to its feed; the last line has no end. -/
theorem lineOf_located {text : Text} {index start : Nat} {line : Line}
    (read : (Line.located 0 (Line.ofText text))[index]? = some (line, start)) {offset : Int}
    (behind : (start : Int) ≤ offset) (within : offset < start + Text.width line.text ∨ line.ending = []) :
    (ofText text).lineOf offset = index + 1 := by
  obtain ⟨listed, rfl⟩ := Line.getElem?_located_eq_some_iff.mp read
  obtain ⟨feeds, single, place⟩ := (Line.cut_ofText text).getElem?_spec listed
  have parts : text = ((Line.ofText text).take index).flatMap Line.text ++
      (line.text ++ ((Line.ofText text).drop (index + 1)).flatMap Line.text) := by
    obtain ⟨inside, same⟩ := List.getElem?_eq_some_iff.mp listed
    rw [← same, ← List.flatMap_cons, List.getElem_cons_drop inside, ← List.flatMap_append, List.take_append_drop,
      Line.flatMap_text_ofText]
  generalize ((Line.ofText text).take index).flatMap Line.text = front at feeds parts behind within
  have first : (ofText text).lineOf (Text.width front) = index + 1 := by
    rw [parts, lineOf_width, feeds, Nat.add_comm]
  have least := first ▸ lineOf_mono text behind
  refine Nat.le_antisymm ?_ least
  rcases place with ⟨_, last⟩ | ended
  · exact last ▸ lineOf_le_length text offset
  · obtain ⟨before, spelled, noFeed⟩ := ended.exists_text single
    have unended : line.ending ≠ [] := ended.spec.1
    have atFeed : (ofText text).lineOf (Text.width (front ++ before)) = index + 1 := by
      have regrouped : text = front ++ before ++ ('\n' :: ((Line.ofText text).drop (index + 1)).flatMap Line.text) := by
        rw [List.append_assoc, List.append_cons before, ← spelled]
        exact parts
      rw [regrouped, lineOf_width, List.count_append, feeds, noFeed, Nat.add_zero, Nat.add_comm]
    have upToFeed : offset ≤ (Text.width (front ++ before) : Nat) := by
      have width : Text.width line.text = Text.width before + 1 := by
        rw [spelled, Text.width_append]
        rfl
      rw [Text.width_append]
      have inside := within.resolve_right unended
      omega
    exact atFeed ▸ lineOf_mono text upToFeed

/-- The line of any offset is one more than the number of feeds before it: the first line for what lies before the text,
and the last one for what lies behind it. The search by halving ends in as many turns as it takes to double one to the
number of lines, and never leaves the table. The lookup agrees with the lines of the text from the start of each up to
its feed. -/
theorem lookup_is_exact (text : Text) :
    (∀ offset : Int, (ofText text).lineOf offset = 1 + ((Text.units text).take offset.toNat).count 10) ∧
    (∀ offset : Int, offset < 0 → (ofText text).lineOf offset = 1) ∧
    (∀ offset : Int, Text.width text ≤ offset → (ofText text).lineOf offset = (Line.ofText text).length) ∧
    (∀ (offset : Int) (turns : Nat), (Line.ofText text).length ≤ 2 ^ turns →
      ∃ found, searchTurns? (ofText text).starts offset turns 0 ((ofText text).starts.size - 1) = some found ∧
        (ofText text).lineOf offset = found + 1) ∧
    ∀ (index : Nat) (line : Line) (start : Nat), (Line.located 0 (Line.ofText text))[index]? = some (line, start) →
      (ofText text).lineOf start = index + 1 ∧
      ∀ offset : Int, (start : Int) ≤ offset → offset < start + Text.width line.text ∨ line.ending = [] →
        (ofText text).lineOf offset = index + 1 := by
  refine ⟨lineOf_eq_count text, fun offset before => ?_, fun offset behind => lineOf_behind text behind,
    fun offset turns enough => ?_, fun index line start read => ⟨?_, fun offset => lineOf_located read⟩⟩
  · rw [lineOf_eq_count, Int.toNat_of_nonpos (Int.le_of_lt before), List.take_zero]
    rfl
  · have nonempty := (ofText text).starts_nonempty
    refine ⟨_, searchTurns?_eq_search offset (by omega) ?_, rfl⟩
    rw [← size_starts] at enough
    omega
  · refine lineOf_located read (Int.le_refl _) ?_
    obtain ⟨listed, _⟩ := Line.getElem?_located_eq_some_iff.mp read
    obtain ⟨_, single, place⟩ := (Line.cut_ofText text).getElem?_spec listed
    rcases place with ⟨unended, _⟩ | ended
    · exact .inr unended
    · obtain ⟨before, spelled, _⟩ := ended.exists_text single
      refine .inl ?_
      rw [spelled, Text.width_append]
      have feed : Text.width ['\n'] = 1 := rfl
      omega

/-- Empty lines one after the other, a break of two characters, a character of two units and a lone carriage return. -/
theorem lookup_is_exact_around_empty_lines :
    let text : Text := "\n\n😀\r\n\ra"
    (Line.located 0 (Line.ofText text))[2]? = some (⟨"😀", "\r\n"⟩, 2) ∧
      (ofText text).lineOf (-7) = 1 ∧ (ofText text).lineOf 100 = 4 ∧
      (∃ found, searchTurns? (ofText text).starts 3 2 0 3 = some found ∧ (ofText text).lineOf 3 = found + 1) ∧
      (ofText text).lineOf 2 = 3 ∧ (ofText text).lineOf 5 = 3 ∧ (ofText text).lineOf 6 = 4 := by
  intro text
  obtain ⟨_, before, behind, ends, lines⟩ := lookup_is_exact text
  have third : (Line.located 0 (Line.ofText text))[2]? = some (⟨"😀", "\r\n"⟩, 2) := by decide
  have fourth : (Line.located 0 (Line.ofText text))[3]? = some (⟨"\ra", []⟩, 6) := by decide
  obtain ⟨atStart, upToFeed⟩ := lines 2 _ 2 third
  exact ⟨third, before (-7) (by decide), behind 100 (by decide), ends 3 2 (by decide), atStart,
    upToFeed 5 (by decide) (.inl (by decide)), (lines 3 _ 6 fourth).1⟩

end LineTable

end Crossref

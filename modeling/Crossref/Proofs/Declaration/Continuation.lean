import Crossref.Proofs.Declaration.Line

/-! Lines that continue a value. An entry takes the lines of text behind it into its value for as long as the
value asks for them, but these lines are also read on their own: each of them declares what it declares in a
document that consists of it alone. -/

set_option autoImplicit false

namespace Crossref

theorem take_eq_take_takeWhile {α : Type} {accepts : α → Bool} {items : List α} {count : Nat}
    (bound : count ≤ (items.takeWhile accepts).length) :
    items.take count = (items.takeWhile accepts).take count := by
  have taken : (items.takeWhile accepts ++ items.dropWhile accepts).take count =
      (items.takeWhile accepts).take count := List.take_append_of_le_length bound
  rwa [List.takeWhile_append_dropWhile] at taken

namespace AttributeEntry

/-- The number of lines that a value takes from the lines of text behind it. -/
def joined (value : Text) : List Text → Nat
  | [] => 0
  | next :: rest =>
    if isContinued value then joined (Text.trimEnd value.dropLast ++ " " ++ Text.trim next) rest + 1 else 0

theorem extendBy_take_joined (value : Text) (following : List Text) :
    extendBy value (following.take (joined value following)) = extendBy value following := by
  induction following generalizing value with
  | nil => rfl
  | cons next rest ih =>
      by_cases continued : isContinued value
      · rw [joined, if_pos continued, List.take_succ_cons, extendBy, if_pos continued, ih, extendBy,
          if_pos continued]
      · rw [joined, if_neg continued, List.take_zero, extendBy, extendBy, if_neg continued]

theorem joined_le_length (value : Text) (following : List Text) : joined value following ≤ following.length := by
  induction following generalizing value with
  | nil => exact Nat.le_refl 0
  | cons next rest ih =>
      rw [joined]
      split
      · exact Nat.succ_le_succ (ih _)
      · exact Nat.zero_le _

end AttributeEntry

namespace Line

/-- The lines behind the line of a number that a value takes. -/
def taken (text : Text) (number : Nat) (value : Text) : List (Line × Nat) :=
  (((ofText text).zipIdx 1).drop number).take
    (AttributeEntry.joined value (continuations ((ofText text).drop number)))

/-- A line outside opens no block, so the lines behind it are outside for as long as none of them does. -/
theorem outside_behind {waiting : Option Text} {numbered : List (Line × Nat)} {item : Line × Nat}
    (mem : item ∈ outside waiting numbered) :
    item.1.opensVerbatim = false ∧ ∃ front back, numbered = front ++ item :: back ∧
      (outside none back).Sublist (outside waiting numbered) := by
  induction numbered generalizing waiting with
  | nil => cases waiting <;> cases mem
  | cons first rest ih =>
      -- A line that is skipped changes what is open and leaves the rest of the scan as it is.
      have later : ∀ {next}, outside waiting (first :: rest) = outside next rest →
          item.1.opensVerbatim = false ∧ ∃ front back, first :: rest = front ++ item :: back ∧
            (outside none back).Sublist (outside waiting (first :: rest)) := by
        intro next skipped
        rw [skipped] at mem ⊢
        obtain ⟨plain, front, back, rfl, sublist⟩ := ih mem
        exact ⟨plain, first :: front, back, rfl, sublist⟩
      cases waiting with
      | some delimiter =>
          by_cases closes : first.1.content = delimiter
          · exact later (if_pos closes)
          · exact later (if_neg closes)
      | none =>
          by_cases opens : first.1.opensVerbatim
          · exact later (if_pos opens)
          · have kept : outside none (first :: rest) = first :: outside none rest := if_neg opens
            rw [kept] at mem ⊢
            rcases List.mem_cons.mp mem with rfl | inRest
            · exact ⟨Bool.eq_false_iff.mpr opens, [], rest, rfl, List.sublist_cons_self _ _⟩
            · obtain ⟨plain, front, back, rfl, sublist⟩ := ih inRest
              exact ⟨plain, first :: front, back, rfl, sublist.cons first⟩

theorem opensVerbatim_of_isText {line : Line} (text : line.isText) : line.opensVerbatim = false := by
  obtain ⟨filled, read⟩ := Verbatim.step_of_isText text
  obtain ⟨content, ending⟩ := line
  rcases Verbatim.step_none_cases content with ⟨_, other⟩ | ⟨_, other⟩ | ⟨_, other⟩ | ⟨_, other⟩
  · cases read.symm.trans (other ending).2
  · exact (other ending).1
  · cases read.symm.trans (other ending).2
  · exact (other ending).1

theorem takeWhile_isText_sublist (numbered : List (Line × Nat)) :
    (numbered.takeWhile (isText ·.1)).Sublist (outside none numbered) := by
  induction numbered with
  | nil => exact .slnil
  | cons first rest ih =>
      by_cases text : first.1.isText
      · have opens := opensVerbatim_of_isText text
        rw [outside, if_neg (Bool.eq_false_iff.mp opens)]
        simp only [List.takeWhile_cons, text, if_true]
        exact ih.cons_cons first
      · simp only [List.takeWhile_cons, text]
        exact List.nil_sublist _

theorem drop_zipIdx_of_append {lines : List Line} {front back : List (Line × Nat)} {line : Line} {number : Nat}
    (split : lines.zipIdx 1 = front ++ (line, number) :: back) : (lines.zipIdx 1).drop number = back := by
  have numbered : (lines.zipIdx 1)[front.length]? = some (line, number) := by
    rw [split, List.getElem?_append_right (Nat.le_refl _), Nat.sub_self]
    rfl
  have position : number = front.length + 1 := by
    rw [List.getElem?_zipIdx] at numbered
    obtain ⟨_, _, made⟩ := Option.map_eq_some_iff.mp numbered
    cases made
    exact Nat.add_comm _ _
  rw [split, position, ← List.drop_drop, List.drop_left]
  rfl

theorem joined_le_length_takeWhile (text : Text) (number : Nat) (value : Text) :
    AttributeEntry.joined value (continuations ((ofText text).drop number)) ≤
      (((ofText text).drop number).takeWhile isText).length := by
  have bound := AttributeEntry.joined_le_length value (continuations ((ofText text).drop number))
  rwa [continuations, List.length_map] at bound

theorem map_content_taken (text : Text) (number : Nat) (value : Text) :
    (taken text number value).map (·.1.content) =
      (continuations ((ofText text).drop number)).take
        (AttributeEntry.joined value (continuations ((ofText text).drop number))) := by
  have bound := joined_le_length_takeWhile text number value
  have contents : ((ofText text).zipIdx 1).map (·.1.content) = (ofText text).map content := by
    have unnumbered := congrArg (List.map content) (List.zipIdx_map_fst 1 (ofText text))
    rwa [List.map_map] at unnumbered
  rw [taken, List.map_take, List.map_drop, contents]
  generalize AttributeEntry.joined value (continuations ((ofText text).drop number)) = count at bound ⊢
  rw [continuations, ← List.map_take, ← take_eq_take_takeWhile bound, List.map_take, List.map_drop]

theorem taken_sublist {text : Text} {numbered : Line × Nat}
    (entryOutside : numbered ∈ outside none ((ofText text).zipIdx 1)) (value : Text) :
    (taken text numbered.2 value).Sublist (outside none ((ofText text).zipIdx 1)) := by
  obtain ⟨_, front, back, split, sublist⟩ := outside_behind entryOutside
  have behind : ((ofText text).zipIdx 1).drop numbered.2 = back := drop_zipIdx_of_append split
  have bound := joined_le_length_takeWhile text numbered.2 value
  have lines : (ofText text).drop numbered.2 = back.map (·.1) := by
    rw [← behind, List.map_drop, List.zipIdx_map_fst]
  have length : (((ofText text).drop numbered.2).takeWhile isText).length =
      (back.takeWhile (isText ·.1)).length := by
    rw [lines, List.takeWhile_map, List.length_map]
    rfl
  rw [length] at bound
  rw [taken, behind, take_eq_take_takeWhile bound]
  exact (List.take_sublist _ _).trans ((takeWhile_isText_sublist back).trans sublist)

theorem Cut.notMem_content {lines : List Line} (cut : Cut lines) : ∀ line ∈ lines, '\n' ∉ line.content := by
  induction cut with
  | last single =>
      intro line mem
      rwa [List.mem_singleton.mp mem]
  | cons single _ _ ih => exact List.forall_mem_cons.mpr ⟨single, ih⟩

end Line

namespace Declared

/-- A declaration of a document of one line, as it is where the line has a number and texts behind it. -/
def placed (line : Nat) (following : List Text) : Declared → Declared
  | .attribute entry =>
    let value := entry.value.map (AttributeEntry.extendBy · following)
    .attribute { entry with value, line }
  | .anchor found => .anchor { found with line }

theorem map_placed_ofLine (path content : Text) (line : Nat) (following : List Text) :
    (ofLine path 1 content []).map (placed line following) = ofLine path line content following := by
  unfold ofLine
  cases AttributeEntry.ofLine? content with
  | some entry =>
      obtain ⟨name, value⟩ := entry
      cases value <;> rfl
  | none =>
      cases Anchor.ofLine? content with
      | some id => rfl
      | none =>
          dsimp only
          rw [List.map_map]
          rfl

/-- A line outside of verbatim blocks declares what it declares as a document of its own. -/
theorem filter_line_ofSource_eq_placed {path text : Text} {numbered : Line × Nat}
    (outside : numbered ∈ Line.outside none ((Line.ofText text).zipIdx 1)) :
    (ofSource ⟨path, text⟩).filter (fun declared => declared.location.line = numbered.2) =
      (ofSource ⟨path, numbered.1.content⟩).map
        (placed numbered.2 (Line.continuations ((Line.ofText text).drop numbered.2))) := by
  have plain : Line.opensVerbatim ⟨numbered.1.content, []⟩ = false := (Line.outside_behind outside).1
  have inText : numbered.1 ∈ Line.ofText text :=
    List.fst_mem_of_mem_zipIdx ((Line.outside_sublist none _).mem outside)
  have single := (Line.cut_ofText text).notMem_content numbered.1 inText
  have alone : ofSource ⟨path, numbered.1.content⟩ = ofLine path 1 numbered.1.content [] := by
    rw [ofSource_eq_ofLines, Line.ofText_of_notMem single]
    simp only [List.zipIdx_cons, List.zipIdx_nil, Line.outside, plain]
    exact List.append_nil _
  rw [filter_line_ofSource outside, alone, map_placed_ofLine]

/-- An entry joins the lines that its value asks for, and each of these lines declares, besides, whatever it
declares as a document of its own. -/
theorem continuation_lines_declare_on_their_own {path text name value : Text} {numbered : Line × Nat}
    (outside : numbered ∈ Line.outside none ((Line.ofText text).zipIdx 1))
    (declares : AttributeEntry.Declares numbered.1.content name (some value)) :
    (ofSource ⟨path, text⟩).filter (fun declared => declared.location.line = numbered.2) =
        [.attribute ⟨⟨Text.lower name, some (AttributeEntry.extendBy value
          ((Line.taken text numbered.2 value).map (·.1.content)))⟩, ⟨path, numbered.2⟩⟩] ∧
      ∀ continued ∈ Line.taken text numbered.2 value,
        (ofSource ⟨path, text⟩).filter (fun declared => declared.location.line = continued.2) =
          (ofSource ⟨path, continued.1.content⟩).map
            (placed continued.2 (Line.continuations ((Line.ofText text).drop continued.2))) := by
  constructor
  · have read := AttributeEntry.ofLine?_eq_some_iff.mpr ⟨name, some value, declares, rfl⟩
    rw [filter_line_ofSource outside, ofLine, read, Line.map_content_taken, AttributeEntry.extendBy_take_joined]
    rfl
  · intro continued mem
    exact filter_line_ofSource_eq_placed ((Line.taken_sublist outside value).mem mem)

/-- A value that takes an inline anchor and an unset entry, in a document with line breaks of two characters. -/
theorem continuation_lines_declare_on_their_own_in_fence :
    let text : Text := "====\r\n:A: x \\\r\n- anchor:i[] \\\r\n:!b:\r\n:c:"
    let numbered : Line × Nat := (⟨":A: x \\", "\r\n"⟩, 2)
    numbered ∈ Line.outside none ((Line.ofText text).zipIdx 1) ∧
    AttributeEntry.Declares numbered.1.content "A" (some "x \\") ∧
    (ofSource ⟨"/a.adoc", text⟩).filter (fun declared => declared.location.line = 2) =
      [.attribute ⟨⟨"a", some "x - anchor:i[] :!b:"⟩, ⟨"/a.adoc", 2⟩⟩] ∧
    (ofSource ⟨"/a.adoc", text⟩).filter (fun declared => declared.location.line = 4) =
      (ofSource ⟨"/a.adoc", ":!b:"⟩).map (placed 4 [":c:"]) := by
  intro text numbered
  have outside : numbered ∈ Line.outside none ((Line.ofText text).zipIdx 1) := by
    decide +kernel
  have declares : AttributeEntry.Declares numbered.1.content "A" (some "x \\") :=
    @AttributeEntry.Declares.of_value 'A' [] "x \\" rfl rfl rfl
  have taken : Line.taken text 2 "x \\" = [(⟨"- anchor:i[] \\", "\r\n"⟩, 3), (⟨":!b:", "\r\n"⟩, 4)] := by
    decide +kernel
  obtain ⟨entry, lines⟩ := @continuation_lines_declare_on_their_own "/a.adoc" text "A" "x \\" numbered outside declares
  have joined : AttributeEntry.extendBy "x \\" ((Line.taken text 2 "x \\").map (·.1.content)) =
      "x - anchor:i[] :!b:" := by
    rw [taken]
    decide +kernel
  have last : (⟨":!b:", "\r\n"⟩, 4) ∈ Line.taken text 2 "x \\" := by
    rw [taken]
    exact List.mem_cons_of_mem _ List.mem_cons_self
  have behind : Line.continuations ((Line.ofText text).drop 4) = [":c:"] := by
    decide +kernel
  have lower : Text.lower "A" = "a" := by decide +kernel
  have second : numbered.2 = 2 := rfl
  rw [second, joined, lower] at entry
  have own := lines _ last
  rw [behind] at own
  exact ⟨outside, declares, entry, own⟩

/-- A line that continues two values is declared as an anchor, and the entry that continues the first value as an
attribute of its own. -/
theorem continuation_lines_may_declare :
    let text : Text := ":a: x \\\n:b: y \\\n[[i]]\n"
    AttributeEntry.Declares ":a: x \\" "a" (some "x \\") ∧
    AttributeEntry.Declares ":b: y \\" "b" (some "y \\") ∧
    Line.taken text 1 "x \\" = [(⟨":b: y \\", "\n"⟩, 2), (⟨"[[i]]", "\n"⟩, 3)] ∧
    Line.taken text 2 "y \\" = [(⟨"[[i]]", "\n"⟩, 3)] ∧
    ofSource ⟨"/a.adoc", text⟩ =
      [.attribute ⟨⟨"a", some "x :b: y [[i]]"⟩, ⟨"/a.adoc", 1⟩⟩,
        .attribute ⟨⟨"b", some "y [[i]]"⟩, ⟨"/a.adoc", 2⟩⟩, .anchor ⟨⟨"/a.adoc", 3⟩, "i"⟩] := by
  intro text
  have first := @AttributeEntry.Declares.of_value 'a' [] "x \\" rfl rfl rfl
  have second := @AttributeEntry.Declares.of_value 'b' [] "y \\" rfl rfl rfl
  refine ⟨first, second, by decide +kernel, by decide +kernel, ?_⟩
  rw [ofSource_eq_ofLines]
  decide +kernel

end Declared

end Crossref

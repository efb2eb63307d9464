import Crossref.Proofs.Expansion.Budget

/-! Texts around an expansion. No reference opens in a text without an opening brace or closes in a text
without a closing one, so that an expansion goes the same way between two such texts as without them. -/

set_option autoImplicit false

namespace Crossref

namespace ReferenceSplit

variable {text front back : Text}

theorem find?_eq_none_of_notMem (noClosing : '}' ∉ text) : find? text = none := by
  apply find?_eq_none_iff.mpr
  intro name refers
  obtain ⟨_, before, behind, same⟩ := refers
  apply noClosing
  simp [same]

theorem find?_append_left (noOpening : '{' ∉ front) :
    find? (front ++ text) =
      (find? text).map fun found => { found with before := front ++ found.before } := by
  induction front with
  | nil => exact Option.map_id'.symm
  | cons c rest ih =>
      have other : c ≠ '{' := fun same => noOpening (same ▸ List.mem_cons_self)
      have noStart : atStart? (c :: (rest ++ text)) = none := by
        apply Option.eq_none_iff_forall_ne_some.mpr
        intro pair read
        obtain ⟨_, same⟩ := atStart?_eq_some_iff.mp read
        exact other (List.cons.inj same).1
      have later := ih fun mem => noOpening (List.mem_cons_of_mem c mem)
      rw [List.cons_append, find?, noStart, later, Option.map_map]
      rfl

/-- A reference at the start of a text does not end behind it. -/
theorem atStart?_append_right (noClosing : '}' ∉ back) :
    atStart? (text ++ back) = (atStart? text).map fun (name, behind) => (name, behind ++ back) := by
  cases start : atStart? text with
  | some pair =>
      obtain ⟨name, behind⟩ := pair
      obtain ⟨isName, rfl⟩ := atStart?_eq_some_iff.mp start
      apply atStart?_eq_some_iff.mpr
      exact ⟨isName, by simp⟩
  | none =>
      apply Option.eq_none_iff_forall_ne_some.mpr
      intro pair read
      obtain ⟨name, behind⟩ := pair
      obtain ⟨isName, same⟩ := atStart?_eq_some_iff.mp read
      rcases List.append_eq_append_iff.mp same with ⟨unread, _, rfl⟩ | ⟨closed, whole, closes⟩
      · exact noClosing (List.mem_append_right _ List.mem_cons_self)
      · cases closed with
        | nil =>
            rw [List.nil_append] at closes
            exact noClosing (closes ▸ List.mem_cons_self)
        | cons c inside =>
            cases closes
            exact nomatch start.symm.trans (atStart?_eq_some_iff.mpr ⟨isName, whole⟩)

theorem find?_append_right (noClosing : '}' ∉ back) :
    find? (text ++ back) =
      (find? text).map fun found => { found with behind := found.behind ++ back } := by
  induction text with
  | nil => exact find?_eq_none_of_notMem noClosing
  | cons c rest ih =>
      have first : atStart? (c :: (rest ++ back)) =
          (atStart? (c :: rest)).map fun (name, behind) => (name, behind ++ back) :=
        @atStart?_append_right (c :: rest) back noClosing
      rw [List.cons_append, find?, find?, first, ih]
      cases start : atStart? (c :: rest) with
      | some pair => rfl
      | none =>
          simp only [Option.map_none, Option.map_map]
          rfl

end ReferenceSplit

namespace Expansion

/-- The second state reads the text of the first one between two others. Of the one in front it may
still have something to read. -/
inductive Framed (front back : Text) : Expansion → Expansion → Prop
  | mk {budget : Nat} {passed outerPassed unread rest : Text} :
      '{' ∉ unread → outerPassed ++ unread = front ++ passed →
      Framed front back ⟨budget, passed, rest⟩ ⟨budget, outerPassed, unread ++ rest ++ back⟩

variable {values : Text → List (Option Text)} {front back : Text} {state outer next last : Expansion}
  {result : Option Text}

theorem Framed.start (noOpening : '{' ∉ front) (budget : Nat) (text : Text) :
    Framed front back ⟨budget, [], text⟩ ⟨budget, [], front ++ text ++ back⟩ :=
  .mk noOpening (List.append_nil front).symm

theorem find?_framed {unread : Text} (rest : Text) (noOpening : '{' ∉ unread) (noClosing : '}' ∉ back) :
    ReferenceSplit.find? (unread ++ rest ++ back) =
      (ReferenceSplit.find? rest).map fun found =>
        ⟨unread ++ found.before, found.name, found.behind ++ back⟩ := by
  rw [ReferenceSplit.find?_append_right noClosing, ReferenceSplit.find?_append_left noOpening,
    Option.map_map]
  rfl

/-- Both states take the same step, and afterwards one still reads the text of the other. -/
theorem Step.framed (noOpening : '{' ∉ front) (noClosing : '}' ∉ back)
    (step : Step values state next) (framed : Framed front back state outer) :
    ∃ outerNext, Step values outer outerNext ∧ Framed front back next outerNext := by
  cases framed with
  | @mk budget passed outerPassed unread rest unopened joined =>
      cases step with
      | @keep _ _ _ found split unvalued =>
          have outerSplit := find?_framed rest unopened noClosing
          rw [split] at outerSplit
          refine ⟨_, .keep outerSplit unvalued, ?_⟩
          -- all of the front is passed together with the reference
          change Framed front back _
            ⟨budget, outerPassed ++ (unread ++ found.before) ++ found.source,
              [] ++ found.behind ++ back⟩
          apply Framed.mk List.not_mem_nil
          simp only [← List.append_assoc, joined, List.append_nil]
      | @substitute _ _ _ value found split valued =>
          have outerSplit := find?_framed rest unopened noClosing
          rw [split] at outerSplit
          refine ⟨_, .substitute outerSplit valued, ?_⟩
          have again : outerPassed ++ (unread ++ found.before) ++ value ++ (found.behind ++ back) =
              front ++ (passed ++ found.before ++ value ++ found.behind) ++ back := by
            simp only [← List.append_assoc, joined]
          rw [again]
          exact .start noOpening _ _

theorem Run.framed (noOpening : '{' ∉ front) (noClosing : '}' ∉ back)
    (run : Run values state last) (framed : Framed front back state outer) :
    ∃ outerLast, Run values outer outerLast ∧ Framed front back last outerLast := by
  induction run with
  | refl => exact ⟨outer, .refl, framed⟩
  | tail _ step ih =>
      obtain ⟨_, outerRun, framed⟩ := ih
      obtain ⟨outerNext, outerStep, framed⟩ := step.framed noOpening noClosing framed
      exact ⟨outerNext, outerRun.tail outerStep, framed⟩

/-- Both states end for the same reason. -/
theorem Ends.framed (noClosing : '}' ∉ back) (ends : Ends values state result)
    (framed : Framed front back state outer) :
    Ends values outer (result.map fun text => front ++ text ++ back) := by
  cases framed with
  | @mk budget passed outerPassed unread rest unopened joined =>
      have outerSplit := find?_framed rest unopened noClosing
      cases ends with
      | finished finished =>
          have outerFinished : Finished ⟨budget, outerPassed, unread ++ rest ++ back⟩ := by
            rw [Finished, outerSplit, finished]
            rfl
          have around : front ++ (passed ++ rest) ++ back = outerPassed ++ (unread ++ rest ++ back) := by
            simp only [← List.append_assoc, joined]
          rw [Option.map_some, text, around]
          exact .finished outerFinished
      | conflict split conflict =>
          rw [split] at outerSplit
          exact .conflict outerSplit conflict
      | exhausted split valued =>
          rw [split] at outerSplit
          exact .exhausted outerSplit valued

end Expansion

namespace Project

/-- A text without an opening brace in front and one without a closing brace behind stay as they are,
and the text between them is expanded as it is without them, with the same budget. -/
theorem expansion_keeps_surroundings {front back : Text} (noOpening : '{' ∉ front)
    (noClosing : '}' ∉ back) (project : Project) (disk : Disk) (file text : Text) (budget : Nat) :
    (project.expand disk file (front ++ text ++ back) budget).value =
      (project.expand disk file text budget).value.map fun result => front ++ result ++ back := by
  obtain ⟨_, last, result, iterates, ends⟩ :=
    Expansion.exists_ends (project.valuesOf disk file) ⟨budget, [], text⟩
  have start : Expansion.Framed front back ⟨budget, [], text⟩ ⟨budget, [], front ++ text ++ back⟩ :=
    .start noOpening budget text
  obtain ⟨outerLast, outerRun, framed⟩ := iterates.run.framed noOpening noClosing start
  calc
    (project.expand disk file (front ++ text ++ back) budget).value =
        result.map fun result => front ++ result ++ back :=
      value_expand_of_ends outerRun (ends.framed noClosing framed)
    _ = (project.expand disk file text budget).value.map fun result => front ++ result ++ back := by
      rw [value_expand_of_ends iterates.run ends]

/-- A value that opens a brace next to a text that would complete a reference, if it closed one. -/
theorem expansion_keeps_surroundings_next_to_open_brace :
    let file : Text := "/p/a.adoc"
    let disk : Disk := ⟨.directory [], "/p"⟩
    let project : Project :=
      ⟨"/p", .default, none, Index.ofSources [⟨file, ":a: \x7b\n:b: 1\n"⟩], 0⟩
    let front : Text := "b\x7d"
    let back : Text := "b\x7b"
    '{' ∉ front ∧ '}' ∉ back ∧
    (project.expand disk file "\x7ba\x7d" 1).value = some ("\x7b" : Text) ∧
    (project.expand disk file (front ++ ("\x7ba\x7d" : Text) ++ back) 1).value =
      some ("b\x7d\x7bb\x7b" : Text) := by
  intro file disk project front back
  have noOpening : '{' ∉ front := by decide
  have noClosing : '}' ∉ back := by decide
  have replaces : Expansion.Step (project.valuesOf disk file) ⟨1, [], "\x7ba\x7d"⟩ ⟨0, [], "\x7b"⟩ :=
    @Expansion.Step.substitute _ 0 [] "\x7ba\x7d" "\x7b" ⟨[], "a", []⟩ (by decide) (by decide +kernel)
  have expanded : (project.expand disk file "\x7ba\x7d" 1).value = some ("\x7b" : Text) :=
    value_expand_eq_some_iff.mpr ⟨⟨0, [], "\x7b"⟩, .head replaces .refl, rfl, rfl⟩
  refine ⟨noOpening, noClosing, expanded, ?_⟩
  rw [expansion_keeps_surroundings noOpening noClosing, expanded]
  rfl

end Project

end Crossref

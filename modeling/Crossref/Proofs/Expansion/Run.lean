import Mathlib.Logic.Relation
import Crossref.Proofs.Expansion.Occurrence

/-! Runs of an expansion. A step passes a reference without a value or substitutes one that has a
value. In the text that is passed no reference has a value, and so a run that ends leaves a text that
no run changes. -/

set_option autoImplicit false

namespace Crossref

/-- A name with these values is neither ambiguous nor set: references to it stay as they are. -/
def Unvalued (values : List (Option Text)) : Prop :=
  values.eraseDups.length ≤ 1 ∧ ∀ value, values.eraseDups ≠ [some value]

theorem unvalued_or_valued_or_conflict (values : List (Option Text)) :
    Unvalued values ∨ (∃ value, values.eraseDups = [some value]) ∨ 1 < values.eraseDups.length := by
  match distinct : values.eraseDups with
  | [] => exact .inl ⟨by simp [distinct], by simp [distinct]⟩
  | [none] => exact .inl ⟨by simp [distinct], by simp [distinct]⟩
  | [some value] => exact .inr (.inl ⟨value, rfl⟩)
  | _ :: _ :: _ => exact .inr (.inr (by simp))

/-- The state of an expansion: how many substitutions are left, and the text before and behind the
place up to which it is read. -/
structure Expansion where
  budget : Nat
  passed : Text
  rest : Text

namespace Expansion

def text (state : Expansion) : Text := state.passed ++ state.rest

def Finished (state : Expansion) : Prop := ReferenceSplit.find? state.rest = none

section

variable (values : Text → List (Option Text))

/-- One step of an expansion in which names have the given values. -/
inductive Step : Expansion → Expansion → Prop
  | keep {budget : Nat} {passed rest : Text} {found : ReferenceSplit} :
      ReferenceSplit.find? rest = some found → Unvalued (values found.name) →
      Step ⟨budget, passed, rest⟩ ⟨budget, passed ++ found.before ++ found.source, found.behind⟩
  | substitute {budget : Nat} {passed rest value : Text} {found : ReferenceSplit} :
      ReferenceSplit.find? rest = some found → (values found.name).eraseDups = [some value] →
      Step ⟨budget + 1, passed, rest⟩ ⟨budget, [], passed ++ found.before ++ value ++ found.behind⟩

def Run : Expansion → Expansion → Prop := Relation.ReflTransGen (Step values)

/-- The text that is passed ends with a reference, and none of its references has a value. -/
structure Settled (state : Expansion) : Prop where
  closed : state.passed = [] ∨ ∃ front, state.passed = front ++ ['}']
  unvalued : ∀ name, Refers state.passed name → Unvalued (values name)

variable {values} {state next last : Expansion}

theorem Settled.start (budget : Nat) (text : Text) : Settled values ⟨budget, [], text⟩ where
  closed := .inl rfl
  unvalued := by
    rintro name ⟨_, before, behind, same⟩
    simp at same

/-- A reference of the text lies in what is passed or in what is left. -/
theorem Settled.refers (settled : Settled values state) {name : Text}
    (refers : Refers state.text name) :
    Refers state.passed name ∨ Refers state.rest name := by
  rcases settled.closed with empty | ⟨front, ends⟩
  · rw [text, empty] at refers
    exact .inr refers
  · rw [text, ends, List.append_assoc] at refers
    rw [ends]
    exact refers.of_append

theorem Step.settled (step : Step values state next) (settled : Settled values state) :
    Settled values next := by
  cases step with
  | @keep budget passed rest found split unvalued =>
      constructor
      case closed =>
        exact .inr ⟨passed ++ found.before ++ '{' :: found.name, by simp [ReferenceSplit.source]⟩
      case unvalued =>
        intro name refers
        have cut : Refers (Expansion.text ⟨budget, passed, found.before ++ found.source⟩) name := by
          simpa [text] using refers
        have passedSettled : Settled values ⟨budget, passed, found.before ++ found.source⟩ :=
          ⟨settled.closed, settled.unvalued⟩
        rcases passedSettled.refers cut with early | first
        · exact settled.unvalued name early
        · rw [ReferenceSplit.name_eq_of_refers split first]
          exact unvalued
  | substitute split valued => exact Settled.start _ _

theorem Run.settled (run : Run values state last) (settled : Settled values state) :
    Settled values last := by
  induction run with
  | refl => exact settled
  | tail _ step ih => exact step.settled ih

theorem Settled.unvalued_of_finished (settled : Settled values state) (finished : state.Finished)
    {name : Text} (refers : Refers state.text name) : Unvalued (values name) := by
  rcases settled.refers refers with early | late
  · exact settled.unvalued name early
  · exact absurd late (ReferenceSplit.find?_eq_none_iff.mp finished name)

/-- A text in which no reference has a value is passed to its end, with any number of substitutions
left. -/
theorem exists_run_of_unvalued {budget : Nat} {passed rest : Text}
    (unvalued : ∀ name, Refers rest name → Unvalued (values name)) :
    ∃ last, Run values ⟨budget, passed, rest⟩ last ∧ last.Finished ∧ last.text = passed ++ rest := by
  induction length : rest.length using Nat.strongRecOn generalizing passed rest with
  | _ n ih =>
      subst length
      cases split : ReferenceSplit.find? rest with
      | none => exact ⟨_, .refl, split, rfl⟩
      | some found =>
          obtain ⟨_, same⟩ := ReferenceSplit.split_of_find? split
          have behind : ∀ name, Refers found.behind name → Unvalued (values name) := by
            intro name refers
            refine unvalued name ?_
            rw [same]
            exact refers.append_left _
          obtain ⟨last, run, finished, ends⟩ :=
            ih _ (ReferenceSplit.find?_shorter split) behind rfl
          have first := unvalued found.name (ReferenceSplit.refers_of_find? split)
          refine ⟨last, .head (.keep split first) run, finished, ?_⟩
          rw [ends, List.append_assoc, List.append_assoc, ← List.append_assoc found.before, ← same]

end

section

variable {values : Text → Noted (List (Option Text))} {state next : Expansion}

theorem value_expandWithin_of_finished (finished : state.Finished) :
    (expandWithin values state.budget state.passed state.rest).value = some state.text := by
  rw [expandWithin]
  split
  · rfl
  · next found split => cases finished.symm.trans split

theorem value_expandWithin_of_find? {budget : Nat} {passed rest : Text} {found : ReferenceSplit}
    (split : ReferenceSplit.find? rest = some found) :
    (expandWithin values budget passed rest).value =
      (match (values found.name).value.eraseDups with
      | [some value] =>
        match budget with
        | 0 => return none
        | remaining + 1 =>
          expandWithin values remaining [] (passed ++ found.before ++ value ++ found.behind)
      | _ :: _ :: _ => return none
      | _ => expandWithin values budget (passed ++ found.before ++ found.source) found.behind).value := by
  rw [expandWithin]
  split
  · next absent => cases split.symm.trans absent
  · next other again =>
      cases split.symm.trans again
      rfl

theorem value_expandWithin_of_step (step : Step (fun name => (values name).value) state next) :
    (expandWithin values state.budget state.passed state.rest).value =
      (expandWithin values next.budget next.passed next.rest).value := by
  cases step with
  | @keep budget passed rest found split unvalued =>
      obtain ⟨few, unset⟩ := unvalued
      rw [value_expandWithin_of_find? split]
      match distinct : (values found.name).value.eraseDups with
      | [] => rfl
      | [none] => rfl
      | [some value] => exact absurd distinct (unset value)
      | _ :: _ :: _ => simp [distinct] at few
  | substitute split valued =>
      rw [value_expandWithin_of_find? split]
      simp only [valued]

theorem value_expandWithin_of_conflict {budget : Nat} {passed rest : Text} {found : ReferenceSplit}
    (split : ReferenceSplit.find? rest = some found)
    (conflict : 1 < (values found.name).value.eraseDups.length) :
    (expandWithin values budget passed rest).value = none := by
  rw [value_expandWithin_of_find? split]
  match distinct : (values found.name).value.eraseDups with
  | [] => simp [distinct] at conflict
  | [_] => simp [distinct] at conflict
  | none :: _ :: _ => rfl
  | some _ :: _ :: _ => rfl

theorem value_expandWithin_of_exhausted {passed rest value : Text} {found : ReferenceSplit}
    (split : ReferenceSplit.find? rest = some found)
    (valued : (values found.name).value.eraseDups = [some value]) :
    (expandWithin values 0 passed rest).value = none := by
  rw [value_expandWithin_of_find? split]
  simp only [valued, Noted.value_pure]

theorem value_expandWithin_of_run (run : Run (fun name => (values name).value) state next) :
    (expandWithin values state.budget state.passed state.rest).value =
      (expandWithin values next.budget next.passed next.rest).value := by
  induction run with
  | refl => rfl
  | tail _ step ih => exact ih.trans (value_expandWithin_of_step step)

/-- An expansion succeeds with the text of the run that reads to the end. -/
theorem value_expandWithin_eq_some_iff {budget : Nat} {passed rest result : Text} :
    (expandWithin values budget passed rest).value = some result ↔
      ∃ last, Run (fun name => (values name).value) ⟨budget, passed, rest⟩ last ∧ last.Finished ∧
        last.text = result := by
  constructor
  · intro expanded
    induction budget, passed, rest using expandWithin.induct with
    | case1 budget passed rest absent =>
        have finished : Finished ⟨budget, passed, rest⟩ := absent
        have ends := (value_expandWithin_of_finished finished).symm.trans expanded
        exact ⟨_, .refl, finished, Option.some.inj ends⟩
    | case2 budget passed rest found split substituted kept =>
        rcases unvalued_or_valued_or_conflict (values found.name).value with
          unvalued | ⟨value, valued⟩ | conflict
        · have step : Step (fun name => (values name).value) ⟨budget, passed, rest⟩ _ :=
            .keep split unvalued
          obtain ⟨last, run, ends⟩ := kept ((value_expandWithin_of_step step).symm.trans expanded)
          exact ⟨last, .head step run, ends⟩
        · cases budget with
          | zero => cases (value_expandWithin_of_exhausted split valued).symm.trans expanded
          | succ remaining =>
              have step : Step (fun name => (values name).value) ⟨remaining + 1, passed, rest⟩ _ :=
                .substitute split valued
              obtain ⟨last, run, ends⟩ :=
                substituted value ((value_expandWithin_of_step step).symm.trans expanded)
              exact ⟨last, .head step run, ends⟩
        · cases (value_expandWithin_of_conflict split conflict).symm.trans expanded
  · rintro ⟨last, run, finished, rfl⟩
    exact (value_expandWithin_of_run run).trans (value_expandWithin_of_finished finished)

end

end Expansion

/-- The values that a name has as seen from a file. -/
def Project.valuesOf (project : Project) (disk : Disk) (file name : Text) : List (Option Text) :=
  (project.findAttributes disk name file).value.map (·.value)

theorem Project.value_expand_eq_some_iff {project : Project} {disk : Disk} {file text result : Text}
    {budget : Nat} :
    (project.expand disk file text budget).value = some result ↔
      ∃ last, Expansion.Run (project.valuesOf disk file) ⟨budget, [], text⟩ last ∧ last.Finished ∧
        last.text = result := by
  rw [expand]
  exact Expansion.value_expandWithin_eq_some_iff

theorem Project.value_expand_of_find? {project : Project} {disk : Disk} {file text : Text} {budget : Nat}
    (plain : ReferenceSplit.find? text = none) :
    (project.expand disk file text budget).value = some text :=
  value_expand_eq_some_iff.mpr ⟨⟨budget, [], text⟩, .refl, plain, rfl⟩

/-- An expanded text refers to no name that is ambiguous or has a value, and expanding it again, with
any number of substitutions, changes nothing. -/
theorem Project.expansion_is_fixed {project : Project} {disk : Disk} {file text result : Text}
    {budget : Nat} (expanded : (project.expand disk file text budget).value = some result) :
    (∀ before name behind, isReferenceName name →
      result = before ++ '{' :: name ++ '}' :: behind →
      let distinct := ((project.findAttributes disk name file).value.map (·.value)).eraseDups
      distinct.length ≤ 1 ∧ ∀ value, distinct ≠ [some value]) ∧
    ∀ other, (project.expand disk file result other).value = some result := by
  obtain ⟨last, run, finished, rfl⟩ := value_expand_eq_some_iff.mp expanded
  have unvalued : ∀ name, Refers last.text name → Unvalued (project.valuesOf disk file name) :=
    fun _ => (run.settled (.start budget text)).unvalued_of_finished finished
  refine ⟨fun before name behind isName same => ?_, fun other => ?_⟩
  · exact unvalued name ⟨isName, before, behind, same⟩
  · exact value_expand_eq_some_iff.mpr (Expansion.exists_run_of_unvalued unvalued)

/-- A value that completes a reference in front of it, next to a name that nothing declares. -/
theorem Project.expansion_is_fixed_behind_completed_reference :
    let file : Text := "/p/a.adoc"
    let disk : Disk := ⟨.directory [], "/p"⟩
    let project : Project :=
      ⟨"/p", .default, none, Index.ofSources [⟨file, ":a: b\x7d\n:xb: 1\n"⟩], 0⟩
    let text : Text := "\x7bx\x7ba\x7d \x7bu\x7d"
    let result : Text := "1 \x7bu\x7d"
    (project.expand disk file text 2).value = some result ∧
    ((project.findAttributes disk "u" file).value.map (·.value)).eraseDups.length ≤ 1 ∧
    ∀ other, (project.expand disk file result other).value = some result := by
  intro file disk project text result
  have expanded : (project.expand disk file text 2).value = some result := by
    refine value_expand_eq_some_iff.mpr ⟨⟨0, result, []⟩, ?_, rfl, rfl⟩
    have completes : Expansion.Step (project.valuesOf disk file) ⟨2, [], text⟩
        ⟨1, [], "\x7bxb\x7d \x7bu\x7d"⟩ :=
      @Expansion.Step.substitute _ 1 [] text "b\x7d" ⟨"\x7bx", "a", " \x7bu\x7d"⟩ (by decide)
        (by decide +kernel)
    have replaces : Expansion.Step (project.valuesOf disk file) ⟨1, [], "\x7bxb\x7d \x7bu\x7d"⟩
        ⟨0, [], result⟩ :=
      @Expansion.Step.substitute _ 0 [] _ "1" ⟨[], "xb", " \x7bu\x7d"⟩ (by decide) (by decide +kernel)
    have undeclared : Unvalued (project.valuesOf disk file "u") := by
      have none : project.valuesOf disk file "u" = [] := by decide +kernel
      rw [none]
      exact ⟨by decide, fun value same => by cases same⟩
    have passes : Expansion.Step (project.valuesOf disk file) ⟨0, [], result⟩ ⟨0, result, []⟩ :=
      @Expansion.Step.keep _ 0 [] result ⟨"1 ", "u", []⟩ (by decide) undeclared
    exact .head completes (.head replaces (.head passes .refl))
  obtain ⟨unvalued, again⟩ := expansion_is_fixed expanded
  exact ⟨expanded, (unvalued "1 " "u" [] (by decide) rfl).1, again⟩

end Crossref

import Mathlib.Data.Nat.Find
import Crossref.Proofs.Expansion.Run
import Crossref.Text.Units

/-! The budget of an expansion. Every iteration uses up a substitution or reads on, so that an expansion
ends after at most as many substitutions as its budget allows. A larger budget does not change an expansion
that succeeds. -/

set_option autoImplicit false

namespace Crossref

namespace Expansion

/-- How many substitutions are left, and how much of the text is left to be read. -/
def left (state : Expansion) : Nat × Nat :=
  (state.budget, Text.width state.text - Text.width state.passed)

/-- The state with some more substitutions. -/
def grant (more : Nat) (state : Expansion) : Expansion := { state with budget := state.budget + more }

section

variable (values : Text → List (Option Text))

/-- Steps one after the other, with the number of substitutions among them. -/
inductive Iterates : Nat → Expansion → Expansion → Prop
  | refl {state : Expansion} : Iterates 0 state state
  | keep {count budget : Nat} {passed rest : Text} {found : ReferenceSplit} {last : Expansion} :
      ReferenceSplit.find? rest = some found → Unvalued (values found.name) →
      Iterates count ⟨budget, passed ++ found.before ++ found.source, found.behind⟩ last →
      Iterates count ⟨budget, passed, rest⟩ last
  | substitute {count budget : Nat} {passed rest value : Text} {found : ReferenceSplit}
      {last : Expansion} :
      ReferenceSplit.find? rest = some found → (values found.name).eraseDups = [some value] →
      Iterates count ⟨budget, [], passed ++ found.before ++ value ++ found.behind⟩ last →
      Iterates (count + 1) ⟨budget + 1, passed, rest⟩ last

/-- The ends of an expansion: the text is read, a name has several values, or a reference has a value
and no substitution is left. -/
inductive Ends : Expansion → Option Text → Prop
  | finished {state : Expansion} : state.Finished → Ends state (some state.text)
  | conflict {budget : Nat} {passed rest : Text} {found : ReferenceSplit} :
      ReferenceSplit.find? rest = some found → 1 < (values found.name).eraseDups.length →
      Ends ⟨budget, passed, rest⟩ none
  | exhausted {passed rest value : Text} {found : ReferenceSplit} :
      ReferenceSplit.find? rest = some found → (values found.name).eraseDups = [some value] →
      Ends ⟨0, passed, rest⟩ none

variable {values} {state next other last : Expansion} {count : Nat} {result : Option Text}

theorem left_eq (state : Expansion) : state.left = (state.budget, Text.width state.rest) := by
  rw [left, text, Text.width_append, Nat.add_sub_cancel_left]

/-- A step uses up a substitution, or else reads on. -/
theorem Step.left_lt (step : Step values state next) :
    Prod.Lex (· < ·) (· < ·) next.left state.left := by
  rw [left_eq, left_eq]
  cases step with
  | @keep budget passed rest found split unvalued =>
      have behind : Text.width found.behind < Text.width rest := by
        have marked : Text.width found.source = 1 + Text.width (found.name ++ ['}']) :=
          Text.width_append ['{'] (found.name ++ ['}'])
        rw [(ReferenceSplit.split_of_find? split).2, Text.width_append, Text.width_append, marked]
        omega
      exact .right _ behind
  | substitute split valued => exact .left _ _ (Nat.lt_succ_self _)

theorem Step.unique (step : Step values state next) (again : Step values state other) :
    next = other := by
  cases step with
  | keep split unvalued =>
      cases again with
      | keep otherSplit _ =>
          cases split.symm.trans otherSplit
          rfl
      | substitute otherSplit valued =>
          cases split.symm.trans otherSplit
          exact absurd valued (unvalued.2 _)
  | substitute split valued =>
      cases again with
      | keep otherSplit unvalued =>
          cases split.symm.trans otherSplit
          exact absurd valued (unvalued.2 _)
      | substitute otherSplit otherValued =>
          cases split.symm.trans otherSplit
          cases valued.symm.trans otherValued
          rfl

/-- Where nothing is left to be done, an expansion ends. -/
theorem exists_step_or_ends (values : Text → List (Option Text)) (state : Expansion) :
    (∃ next, Step values state next) ∨ ∃ result, Ends values state result := by
  obtain ⟨budget, passed, rest⟩ := state
  cases split : ReferenceSplit.find? rest with
  | none => exact .inr ⟨_, .finished split⟩
  | some found =>
      rcases unvalued_or_valued_or_conflict (values found.name) with unvalued | ⟨value, valued⟩ | conflict
      · exact .inl ⟨_, .keep split unvalued⟩
      · cases budget with
        | zero => exact .inr ⟨_, .exhausted split valued⟩
        | succ remaining => exact .inl ⟨_, .substitute split valued⟩
      · exact .inr ⟨_, .conflict split conflict⟩

theorem Ends.not_step (ends : Ends values state result) : ¬ Step values state next := by
  intro step
  cases ends with
  | finished finished =>
      cases step with
      | keep split _ => cases finished.symm.trans split
      | substitute split _ => cases finished.symm.trans split
  | conflict split conflict =>
      cases step with
      | keep otherSplit unvalued =>
          cases split.symm.trans otherSplit
          exact absurd unvalued.1 (Nat.not_le.mpr conflict)
      | substitute otherSplit valued =>
          cases split.symm.trans otherSplit
          rw [valued] at conflict
          exact absurd conflict (Nat.lt_irrefl 1)
  | exhausted split valued =>
      cases step with
      | keep otherSplit unvalued =>
          cases split.symm.trans otherSplit
          exact absurd valued (unvalued.2 _)

theorem Iterates.of_step (step : Step values state next) (iterates : Iterates values count next last) :
    ∃ total, Iterates values total state last := by
  cases step with
  | keep split unvalued => exact ⟨_, .keep split unvalued iterates⟩
  | substitute split valued => exact ⟨_, .substitute split valued iterates⟩

/-- Every substitution uses up one of the budget. -/
theorem Iterates.count_add_budget (iterates : Iterates values count state last) :
    count + last.budget = state.budget := by
  induction iterates with
  | refl => exact Nat.zero_add _
  | keep _ _ _ ih => exact ih
  | substitute _ _ _ ih => exact (Nat.succ_add _ _).trans (congrArg Nat.succ ih)

theorem Iterates.run (iterates : Iterates values count state last) : Run values state last := by
  induction iterates with
  | refl => exact .refl
  | keep split unvalued _ ih => exact .head (.keep split unvalued) ih
  | substitute split valued _ ih => exact .head (.substitute split valued) ih

theorem Run.exists_iterates (run : Run values state last) : ∃ count, Iterates values count state last := by
  induction run using Relation.ReflTransGen.head_induction_on with
  | refl => exact ⟨0, .refl⟩
  | head step _ ih =>
      obtain ⟨_, iterates⟩ := ih
      exact iterates.of_step step

/-- The run that ends passes through every state that is reached. -/
theorem Ends.run_of_run (ends : Ends values last result) (whole : Run values state last)
    (part : Run values state next) : Run values next last := by
  induction part using Relation.ReflTransGen.head_induction_on with
  | refl => exact whole
  | head step _ ih =>
      rcases whole.cases_head with rfl | ⟨second, first, rest⟩
      · exact absurd step ends.not_step
      · exact ih (step.unique first ▸ rest)

/-- From every state the steps come to an end. The pair of what is left decreases with each of them. -/
theorem exists_ends (values : Text → List (Option Text)) (state : Expansion) :
    ∃ count last result, Iterates values count state last ∧ Ends values last result := by
  induction same : state.left using
    (Prod.lex Nat.lt_wfRel Nat.lt_wfRel).wf.induction generalizing state with
  | _ pair ih =>
      subst same
      rcases exists_step_or_ends values state with ⟨next, step⟩ | ⟨result, ends⟩
      · obtain ⟨_, last, result, iterates, ends⟩ := ih next.left step.left_lt next rfl
        obtain ⟨count, total⟩ := iterates.of_step step
        exact ⟨count, last, result, total, ends⟩
      · exact ⟨0, state, result, .refl, ends⟩

theorem Step.grant (step : Step values state next) (more : Nat) :
    Step values (state.grant more) (next.grant more) := by
  cases step with
  | keep split unvalued => exact .keep split unvalued
  | @substitute budget passed rest value found split valued =>
      have shifted : budget + 1 + more = budget + more + 1 := Nat.succ_add budget more
      rw [Expansion.grant, shifted]
      exact .substitute split valued

theorem Run.grant (run : Run values state last) (more : Nat) :
    Run values (state.grant more) (last.grant more) :=
  run.lift (Expansion.grant more) fun _ _ step => step.grant more

end

theorem value_expandWithin_of_ends {values : Text → Noted (List (Option Text))} {budget : Nat}
    {passed rest : Text} {last : Expansion} {result : Option Text}
    (run : Run (fun name => (values name).value) ⟨budget, passed, rest⟩ last)
    (ends : Ends (fun name => (values name).value) last result) :
    (expandWithin values budget passed rest).value = result := by
  refine (value_expandWithin_of_run run).trans ?_
  cases ends with
  | finished finished => exact value_expandWithin_of_finished finished
  | conflict split conflict => exact value_expandWithin_of_conflict split conflict
  | exhausted split valued => exact value_expandWithin_of_exhausted split valued

end Expansion

namespace Project

variable {project : Project} {disk : Disk} {file text result : Text} {budget larger : Nat}

theorem value_expand_of_ends {last : Expansion} {ended : Option Text}
    (run : Expansion.Run (project.valuesOf disk file) ⟨budget, [], text⟩ last)
    (ends : Expansion.Ends (project.valuesOf disk file) last ended) :
    (project.expand disk file text budget).value = ended := by
  rw [expand]
  refine Expansion.value_expandWithin_of_ends ?_ ends
  exact run

theorem value_expand_of_le (enough : budget ≤ larger)
    (expanded : (project.expand disk file text budget).value = some result) :
    (project.expand disk file text larger).value = some result := by
  obtain ⟨last, run, finished, rfl⟩ := value_expand_eq_some_iff.mp expanded
  obtain ⟨more, rfl⟩ := Nat.exists_eq_add_of_le enough
  exact value_expand_eq_some_iff.mpr ⟨last.grant more, run.grant more, finished, rfl⟩

/-- An expansion that succeeds is the same with every larger budget. So there is none with any budget, or
there is a smallest budget from which on there is always the same one. -/
theorem budget_only_cuts_off (project : Project) (disk : Disk) (file text : Text) :
    (∀ budget larger result, budget ≤ larger →
      (project.expand disk file text budget).value = some result →
      (project.expand disk file text larger).value = some result) ∧
    ((∀ budget, (project.expand disk file text budget).value = none) ∨
      ∃ threshold result, ∀ budget, (project.expand disk file text budget).value =
        if threshold ≤ budget then some result else none) := by
  refine ⟨fun budget larger result => value_expand_of_le, ?_⟩
  by_cases never : ∀ budget, (project.expand disk file text budget).value = none
  · exact .inl never
  · have succeeds : ∃ budget result, (project.expand disk file text budget).value = some result := by
      obtain ⟨budget, some⟩ := not_forall.mp never
      exact ⟨budget, Option.ne_none_iff_exists'.mp some⟩
    classical
    obtain ⟨result, expanded⟩ := Nat.find_spec succeeds
    refine .inr ⟨Nat.find succeeds, result, fun budget => ?_⟩
    split
    · next enough => exact value_expand_of_le enough expanded
    · next few =>
        have fails := Nat.find_min succeeds (Nat.not_le.mp few)
        exact Option.eq_none_iff_forall_ne_some.mpr fun other expanded => fails ⟨other, expanded⟩

/-- A value that refers to another attribute takes two substitutions. -/
theorem budget_only_cuts_off_below_two :
    let file : Text := "/p/a.adoc"
    let disk : Disk := ⟨.directory [], "/p"⟩
    let project : Project :=
      ⟨"/p", .default, none, Index.ofSources [⟨file, ":a: \x7bb\x7d\n:b: 1\n"⟩], 0⟩
    let text : Text := "\x7ba\x7d"
    (project.expand disk file text 1).value = none ∧
    (project.expand disk file text 2).value = some ("1" : Text) ∧
    2 ≤ 5 ∧ (project.expand disk file text 5).value = some ("1" : Text) := by
  intro file disk project text
  have first (budget : Nat) : Expansion.Step (project.valuesOf disk file) ⟨budget + 1, [], text⟩
      ⟨budget, [], "\x7bb\x7d"⟩ :=
    @Expansion.Step.substitute _ budget [] text "\x7bb\x7d" ⟨[], "a", []⟩ (by decide) (by decide +kernel)
  have valued : ((project.valuesOf disk file) "b").eraseDups = [some ("1" : Text)] := by decide +kernel
  have second : Expansion.Step (project.valuesOf disk file) ⟨1, [], "\x7bb\x7d"⟩ ⟨0, [], "1"⟩ :=
    @Expansion.Step.substitute _ 0 [] "\x7bb\x7d" "1" ⟨[], "b", []⟩ (by decide) valued
  have exhausted : Expansion.Ends (project.valuesOf disk file) ⟨0, [], "\x7bb\x7d"⟩ none :=
    @Expansion.Ends.exhausted _ [] "\x7bb\x7d" "1" ⟨[], "b", []⟩ (by decide) valued
  have expanded : (project.expand disk file text 2).value = some ("1" : Text) :=
    value_expand_of_ends (.head (first 1) (.head second .refl)) (.finished rfl)
  refine ⟨value_expand_of_ends (.head (first 0) .refl) exhausted, expanded, by decide, ?_⟩
  exact (budget_only_cuts_off project disk file text).1 2 5 "1" (by decide) expanded

/-- An expansion comes to its end. With every iteration the substitutions that are left, or else what is left
to be read, become fewer, and the budget bounds the number of substitutions. -/
theorem expansion_ends (project : Project) (disk : Disk) (file text : Text) (budget : Nat) :
    let values := project.valuesOf disk file
    let start : Expansion := ⟨budget, [], text⟩
    (∀ state next, Expansion.Step values state next →
      Prod.Lex (· < ·) (· < ·) next.left state.left) ∧
    ∃ count last, Expansion.Iterates values count start last ∧ count ≤ budget ∧
      Expansion.Ends values last (project.expand disk file text budget).value ∧
      (∀ next, ¬ Expansion.Step values last next) ∧
      ∀ done state, Expansion.Iterates values done start state →
        done ≤ count ∧ ∃ more, Expansion.Iterates values more state last := by
  intro values start
  refine ⟨fun state next step => step.left_lt, ?_⟩
  obtain ⟨count, last, result, whole, ends⟩ := Expansion.exists_ends values start
  have spent : count + last.budget = budget := whole.count_add_budget
  refine ⟨count, last, whole, by omega, ?_, fun next => ends.not_step, fun done state part => ?_⟩
  · rw [value_expand_of_ends whole.run ends]
    exact ends
  · obtain ⟨more, rest⟩ := (ends.run_of_run whole.run part.run).exists_iterates
    have soFar : done + state.budget = budget := part.count_add_budget
    have later : more + last.budget = state.budget := rest.count_add_budget
    exact ⟨by omega, more, rest⟩

/-- A value that refers to itself makes the text longer until the budget is used up. -/
theorem expansion_ends_behind_self_reference :
    let file : Text := "/p/a.adoc"
    let disk : Disk := ⟨.directory [], "/p"⟩
    let project : Project := ⟨"/p", .default, none, Index.ofSources [⟨file, ":a: x\x7ba\x7d\n"⟩], 0⟩
    let state : Expansion := ⟨1, [], "\x7ba\x7d"⟩
    let next : Expansion := ⟨0, [], "x\x7ba\x7d"⟩
    Expansion.Step (project.valuesOf disk file) state next ∧
    Prod.Lex (· < ·) (· < ·) next.left state.left ∧
    ∃ last, Expansion.Iterates (project.valuesOf disk file) 1 state last ∧ last.budget = 0 ∧
      Expansion.Ends (project.valuesOf disk file) last none := by
  intro file disk project state next
  have step : Expansion.Step (project.valuesOf disk file) state next :=
    @Expansion.Step.substitute _ 0 [] "\x7ba\x7d" "x\x7ba\x7d" ⟨[], "a", []⟩ (by decide) (by decide +kernel)
  have exhausted : Expansion.Ends (project.valuesOf disk file) next none :=
    @Expansion.Ends.exhausted _ [] "x\x7ba\x7d" "x\x7ba\x7d" ⟨"x", "a", []⟩ (by decide) (by decide +kernel)
  obtain ⟨decreases, _⟩ := expansion_ends project disk file "\x7ba\x7d" 1
  refine ⟨step, decreases state next step, next, ?_, rfl, exhausted⟩
  exact @Expansion.Iterates.substitute _ 0 0 [] "\x7ba\x7d" "x\x7ba\x7d" ⟨[], "a", []⟩ next (by decide)
    (by decide +kernel) .refl

end Project

end Crossref

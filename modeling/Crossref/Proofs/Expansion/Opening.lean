import Crossref.Proofs.Attribute
import Crossref.Proofs.Expansion.Budget

/-! The opening braces of a text that is expanded. A substitution takes one of them away and, if no value
holds any, brings no other one. A budget of as many substitutions is never used up. -/

set_option autoImplicit false

namespace Crossref

theorem ReferenceSplit.count_of_find? {text : Text} {found : ReferenceSplit}
    (split : find? text = some found) :
    text.count '{' = found.before.count '{' + 1 + found.behind.count '{' := by
  obtain ⟨isName, same⟩ := split_of_find? split
  have noOpening : found.name.count '{' = 0 :=
    List.count_eq_zero.mpr (notMem_of_isReferenceName isName (by decide))
  rw [same, source]
  simp only [List.count_append, List.count_cons, List.count_nil, noOpening]
  simp

namespace Expansion

def openings (state : Expansion) : Nat := state.text.count '{'

/-- The reference that is read next has several values. -/
def Conflicts (values : Text → List (Option Text)) (state : Expansion) : Prop :=
  ∃ found, ReferenceSplit.find? state.rest = some found ∧ 1 < (values found.name).eraseDups.length

section

variable {values : Text → List (Option Text)} {state next last : Expansion} {result : Option Text}

/-- Every substitution takes away one opening brace. -/
theorem Step.openings_add_budget (unnested : ∀ name value, some value ∈ values name → '{' ∉ value)
    (step : Step values state next) : next.openings + state.budget = state.openings + next.budget := by
  cases step with
  | @keep budget passed rest found split unvalued =>
      obtain ⟨_, same⟩ := ReferenceSplit.split_of_find? split
      have unchanged : passed ++ found.before ++ found.source ++ found.behind = passed ++ rest := by
        rw [same]
        simp only [List.append_assoc]
      simp only [openings, text, unchanged]
  | @substitute budget passed rest value found split valued =>
      have declared : some value ∈ values found.name := by
        apply List.mem_eraseDups.mp
        rw [valued]
        exact List.mem_singleton_self _
      have noOpening : value.count '{' = 0 := List.count_eq_zero.mpr (unnested _ _ declared)
      have held := ReferenceSplit.count_of_find? split
      simp only [openings, text, List.nil_append, List.count_append, noOpening, held]
      omega

theorem Run.openings_add_budget (unnested : ∀ name value, some value ∈ values name → '{' ∉ value)
    (run : Run values state last) : last.openings + state.budget = state.openings + last.budget := by
  induction run with
  | refl => rfl
  | tail _ step ih =>
      have stepped := step.openings_add_budget unnested
      omega

/-- With as many substitutions as there are opening braces, one is left for every reference. -/
theorem Run.budget_pos (unnested : ∀ name value, some value ∈ values name → '{' ∉ value)
    (enough : state.openings ≤ state.budget) (run : Run values state last) {found : ReferenceSplit}
    (split : ReferenceSplit.find? last.rest = some found) : 0 < last.budget := by
  have kept := run.openings_add_budget unnested
  have opens : 0 < last.openings := by
    rw [openings, text, List.count_append, ReferenceSplit.count_of_find? split]
    omega
  omega

theorem Ends.finished_or_conflicts
    (remaining : ∀ found, ReferenceSplit.find? state.rest = some found → 0 < state.budget)
    (ends : Ends values state result) :
    state.Finished ∧ result = some state.text ∨ Conflicts values state ∧ result = none := by
  cases ends with
  | finished finished => exact .inl ⟨finished, rfl⟩
  | conflict split conflict => exact .inr ⟨⟨_, split, conflict⟩, rfl⟩
  | exhausted split valued => exact absurd (remaining _ split) (Nat.lt_irrefl 0)

theorem Conflicts.ends (conflicts : Conflicts values state) : Ends values state none := by
  obtain ⟨budget, passed, rest⟩ := state
  obtain ⟨found, split, conflict⟩ := conflicts
  exact .conflict split conflict

end

end Expansion

namespace Project

variable {project : Project} {disk : Disk} {file text : Text}

theorem value_expand_count_add
    (unnested : ∀ name value, some value ∈ project.valuesOf disk file name → '{' ∉ value) (more : Nat) :
    (project.expand disk file text (text.count '{' + more)).value =
      (project.expand disk file text (text.count '{')).value := by
  let start : Expansion := ⟨text.count '{', [], text⟩
  obtain ⟨_, last, result, iterates, ends⟩ := Expansion.exists_ends (project.valuesOf disk file) start
  have granted : Expansion.Run (project.valuesOf disk file) ⟨text.count '{' + more, [], text⟩
      (last.grant more) := iterates.run.grant more
  rw [value_expand_of_ends iterates.run ends]
  rcases ends.finished_or_conflicts fun _ =>
      iterates.run.budget_pos unnested (Nat.le_refl start.openings) with
    ⟨finished, rfl⟩ | ⟨conflicts, rfl⟩
  · have endsLater : Expansion.Ends (project.valuesOf disk file) (last.grant more)
        (some (last.grant more).text) := .finished finished
    exact value_expand_of_ends granted endsLater
  · have conflictsLater : Expansion.Conflicts (project.valuesOf disk file) (last.grant more) := conflicts
    exact value_expand_of_ends granted conflictsLater.ends

/-- If no value that is visible from a file has an opening brace, an expansion with as many substitutions
as the text has opening braces fails only at a reference with several values. In every state one
substitution is left for the next reference, and more of them change nothing. -/
theorem only_conflicts_end_expansion_of_unnested (project : Project) (disk : Disk) (file text : Text)
    (budget : Nat)
    (unnested : ∀ name, ∀ candidate ∈ (project.findAttributes disk name file).value,
      ∀ value ∈ candidate.value, '{' ∉ value)
    (enough : text.count '{' ≤ budget) :
    let values := project.valuesOf disk file
    let start : Expansion := ⟨budget, [], text⟩
    ((project.expand disk file text budget).value = none ↔
      ∃ state, Expansion.Run values start state ∧ Expansion.Conflicts values state) ∧
    (∀ state found, Expansion.Run values start state →
      ReferenceSplit.find? state.rest = some found → 0 < state.budget) ∧
    ∀ other, text.count '{' ≤ other →
      (project.expand disk file text other).value = (project.expand disk file text budget).value := by
  intro values start
  have noOpening : ∀ name value, some value ∈ project.valuesOf disk file name → '{' ∉ value := by
    intro name value declared
    obtain ⟨candidate, mem, has⟩ := List.mem_map.mp declared
    exact unnested name candidate mem value has
  have affordable : start.openings ≤ start.budget := enough
  have affords : ∀ state found, Expansion.Run values start state →
      ReferenceSplit.find? state.rest = some found → 0 < state.budget :=
    fun _ _ run => run.budget_pos noOpening affordable
  refine ⟨?_, affords, ?_⟩
  · constructor
    · intro fails
      obtain ⟨_, last, result, iterates, ends⟩ := Expansion.exists_ends values start
      have failed : result = none := (value_expand_of_ends iterates.run ends).symm.trans fails
      rcases ends.finished_or_conflicts fun found => affords last found iterates.run with
        ⟨_, succeeds⟩ | ⟨conflicts, _⟩
      · exact nomatch failed.symm.trans succeeds
      · exact ⟨last, iterates.run, conflicts⟩
    · intro meets
      obtain ⟨state, run, conflicts⟩ := meets
      exact value_expand_of_ends run conflicts.ends
  · have settled : ∀ other, text.count '{' ≤ other →
        (project.expand disk file text other).value =
          (project.expand disk file text (text.count '{')).value := by
      intro other larger
      obtain ⟨more, rfl⟩ := Nat.exists_eq_add_of_le larger
      exact value_expand_count_add noOpening more
    intro other larger
    exact (settled other larger).trans (settled budget enough).symm

/-- A value completes a reference in front of it, and this one has two values: the expansion ends there
with a substitution to spare. -/
theorem only_conflicts_end_expansion_of_unnested_in_completed_reference :
    let file : Text := "/p/a.adoc"
    let disk : Disk := ⟨.directory [], "/p"⟩
    let source : Source := ⟨file, ":a: b\x7d\n:xb: 1\n:xb: 2\n"⟩
    let project : Project := ⟨"/p", .default, none, Index.ofSources [source], 0⟩
    let text : Text := "\x7bx\x7ba\x7d"
    (∀ name, ∀ candidate ∈ (project.findAttributes disk name file).value,
      ∀ value ∈ candidate.value, '{' ∉ value) ∧
    text.count '{' ≤ 2 ∧
    Expansion.Run (project.valuesOf disk file) ⟨2, [], text⟩ ⟨1, [], "\x7bxb\x7d"⟩ ∧
    (project.expand disk file text 2).value = none ∧ (project.expand disk file text 9).value = none := by
  intro file disk source project text
  have unnested : ∀ name, ∀ candidate ∈ (project.findAttributes disk name file).value,
      ∀ value ∈ candidate.value, '{' ∉ value := by
    have noSnippets : project.snippetsAttributes disk file = [] := by decide +kernel
    have noModule : (project.moduleAttributes disk file).value = [] := by decide +kernel
    have declared : ∀ found ∈ [source].flatMap Declared.ofSource, ∀ entry ∈ found.attribute?,
        ∀ value ∈ entry.value, '{' ∉ value := by decide +kernel
    intro name candidate mem
    rcases cases_of_mem_findAttributes rfl mem with inBuild | inModule | ⟨entry, origin, rfl⟩
    · rw [noSnippets] at inBuild
      cases inBuild
    · rw [noModule] at inModule
      cases inModule
    · exact declared _ origin entry rfl
  have enough : text.count '{' ≤ 2 := by decide
  have completes : Expansion.Step (project.valuesOf disk file) ⟨2, [], text⟩ ⟨1, [], "\x7bxb\x7d"⟩ :=
    @Expansion.Step.substitute _ 1 [] text "b\x7d" ⟨"\x7bx", "a", []⟩ (by decide) (by decide +kernel)
  have run : Expansion.Run (project.valuesOf disk file) ⟨2, [], text⟩ ⟨1, [], "\x7bxb\x7d"⟩ :=
    .head completes .refl
  have conflict : 1 < (project.valuesOf disk file "xb").eraseDups.length := by decide +kernel
  obtain ⟨fails, _, unchanged⟩ :=
    only_conflicts_end_expansion_of_unnested project disk file text 2 unnested enough
  have failed : (project.expand disk file text 2).value = none :=
    fails.mpr ⟨_, run, ⟨[], "xb", []⟩, by decide, conflict⟩
  exact ⟨unnested, enough, run, failed, (unchanged 9 (by decide)).trans failed⟩

end Project

end Crossref

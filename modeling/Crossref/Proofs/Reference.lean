import Mathlib.Data.List.Forall2
import Crossref.Proofs.Expansion.Run
import Crossref.Proofs.Line.Outside
import Crossref.Proofs.Resolution.Candidates

/-! What is reported about references. Every line outside of verbatim blocks that names a file is reported
once, with files that it may mean. -/

set_option autoImplicit false

namespace Crossref

/-- A line that names a file: a macro for files with a target. -/
def Line.RefersTo (content name target : Text) : Prop :=
  (∃ family, (name, family) ∈ referenceMacros) ∧ target ≠ [] ∧
    ∃ attributes, BlockMacro.Invokes content name target attributes

theorem lookup_referenceMacros_eq_some_iff {name : Text} {family : Option Family} :
    List.lookup name referenceMacros = some family ↔ (name, family) ∈ referenceMacros := by
  constructor
  · intro found
    obtain ⟨front, back, split, _⟩ := List.lookup_eq_some_iff.mp found
    rw [split]
    exact List.mem_append_right _ List.mem_cons_self
  · intro mem
    have each : ∀ listed ∈ referenceMacros, List.lookup listed.1 referenceMacros = some listed.2 := by
      decide
    exact each _ mem

namespace Project

variable (project : Project) (disk : Disk) (file : Text)

/-- Checks a macro with a target. -/
def checkInvocation (invocation : Invocation) : Noted (Option Reference) :=
  let macroName := invocation.id.take (invocation.id.length - 2)
  match List.lookup macroName referenceMacros with
  | some family => project.checkTarget disk ⟨file, invocation.line⟩ macroName invocation.target family
  | none => return none

/-- The reference that a line outside of verbatim blocks makes. -/
def checkLine (numbered : Line × Nat) : Option Reference :=
  (Line.invocation? numbered).bind fun invocation =>
    (project.checkInvocation disk file invocation).value

theorem value_checkMention (mention : Mention) :
    (project.checkMention disk file mention).value =
      mention.invocation?.bind fun invocation =>
        (project.checkInvocation disk file invocation).value := by
  obtain ⟨line, kind, text, startsLine, opensList, continuations, target⟩ := mention
  cases kind with
  | blockMacroId =>
      cases target with
      | none => rfl
      | some target =>
          rw [checkMention, Mention.invocation?, Option.bind_some, checkInvocation]
          cases List.lookup (text.take (text.length - 2)) referenceMacros <;> rfl
  | _ => cases target <;> rfl

theorem value_checkDocument (text : Text) :
    (project.checkDocument disk file text).value =
      (Line.outside none ((Line.ofText text).zipIdx 1)).filterMap (project.checkLine disk file) := by
  have checked : (fun mention => (project.checkMention disk file mention).value) = fun mention =>
      mention.invocation?.bind fun invocation =>
        (project.checkInvocation disk file invocation).value :=
    funext fun mention => project.value_checkMention disk file mention
  rw [checkDocument_eq_checkMentions, Noted.value_bind, Noted.mapM_eq, Noted.value_pure,
    List.filterMap_map, Function.id_comp, checked, ← List.filterMap_filterMap,
    Mention.filterMap_invocation?_ofText, List.filterMap_filterMap]
  rfl

variable {project disk file} {numbered : Line × Nat} {name target : Text}

theorem checkLine_of_refersTo (refers : Line.RefersTo numbered.1.content name target) :
    ∃ family, project.checkLine disk file numbered =
      (project.checkTarget disk ⟨file, numbered.2⟩ name target family).value := by
  obtain ⟨⟨family, known⟩, nonempty, attributes, invokes⟩ := refers
  refine ⟨family, ?_⟩
  have given : target.isEmpty = false := by simpa using nonempty
  have invoked : Line.invocation? numbered = some ⟨numbered.2, name ++ "::", target⟩ := by
    simp only [Line.invocation?, invokes.ofLine?, given, Bool.false_eq_true, if_false]
  have named : (name ++ "::").take ((name ++ "::").length - 2) = name := by simp
  rw [checkLine, invoked, Option.bind_some, checkInvocation]
  simp only [named, lookup_referenceMacros_eq_some_iff.mpr known]

theorem exists_of_checkLine {reference : Reference}
    (checked : project.checkLine disk file numbered = some reference) :
    ∃ name target family, Line.RefersTo numbered.1.content name target ∧
      (project.checkTarget disk ⟨file, numbered.2⟩ name target family).value = some reference := by
  obtain ⟨invocation, invoked, reported⟩ := Option.bind_eq_some_iff.mp checked
  rw [Line.invocation?] at invoked
  split at invoked
  · cases invoked
  · next found read =>
      obtain ⟨name, attributes, invokes, whole⟩ := BlockMacro.exists_invokes_of_ofLine? read
      have named : found.id = name ++ "::" := congrArg BlockMacro.id whole
      split at invoked
      · cases invoked
      · next given =>
          cases invoked
          have taken : found.id.take (found.id.length - 2) = name := by simp [named]
          simp only [checkInvocation, taken] at reported
          split at reported
          · next family known =>
              have listed := lookup_referenceMacros_eq_some_iff.mp known
              exact ⟨name, found.target, family,
                ⟨⟨family, listed⟩, by simpa using given, attributes, invokes⟩, reported⟩
          · cases reported

/-- Every target means some file, by an absolute path if the document is in a directory. -/
theorem targetCandidates_spec {directory : Text} (above : disk.parent? file = some directory)
    (family : Option Family) :
    (project.targetCandidates disk file target family).value ≠ [] ∧
      ∀ candidate ∈ (project.targetCandidates disk file target family).value,
        Path.isAbsolute candidate := by
  have single : ∀ path, [disk.canonical path] ≠ [] ∧
      ∀ candidate ∈ [disk.canonical path], Path.isAbsolute candidate :=
    fun path => ⟨List.cons_ne_nil _ _, List.forall_mem_singleton.mpr rfl⟩
  rw [targetCandidates]
  split
  · exact single _
  · simp only [above]
    split
    · simp only [Noted.value_bind, Noted.value_pure]
      split
      · exact single _
      · next nonempty =>
          exact ⟨by simpa using nonempty, fun candidate mem => (List.mem_filter.mp mem).2⟩
    · exact single _

section Target

variable {line : Nat} {family : Option Family}

theorem exists_checkTarget (noUrl : ∀ expanded,
    (project.expand disk file target project.config.maxSubstitutions).value = some expanded →
      isUrl expanded = false) :
    ∃ reference, (project.checkTarget disk ⟨file, line⟩ name target family).value = some reference := by
  rw [checkTarget, Noted.value_bind]
  cases expands : (project.expand disk file target project.config.maxSubstitutions).value with
  | none => exact ⟨_, rfl⟩
  | some expanded =>
      simp only [noUrl expanded expands, Bool.false_eq_true, if_false]
      exact ⟨_, rfl⟩

/-- Everything that the check of a target can report. -/
theorem checkTarget_cases {reference : Reference}
    (reported : (project.checkTarget disk ⟨file, line⟩ name target family).value = some reference) :
    (reference.toLocation = ⟨file, line⟩ ∧ reference.macroName = name ∧ reference.target = target) ∧
    ((project.expand disk file target project.config.maxSubstitutions).value = none ∧
        reference.status = .ambiguous ∧ reference.candidates = [] ∨
      ∃ expanded,
        (project.expand disk file target project.config.maxSubstitutions).value = some expanded ∧
        isUrl expanded = false ∧
        reference.candidates = (project.targetCandidates disk file expanded family).value ∧
        reference.status = if reference.candidates.any disk.exists? then .resolved else .missing) := by
  rw [checkTarget, Noted.value_bind] at reported
  cases expands : (project.expand disk file target project.config.maxSubstitutions).value with
  | none =>
      rw [expands] at reported
      cases reported
      exact ⟨⟨rfl, rfl, rfl⟩, .inl ⟨rfl, rfl, rfl⟩⟩
  | some expanded =>
      simp only [expands] at reported
      split at reported
      · cases reported
      · next noUrl =>
          cases reported
          exact ⟨⟨rfl, rfl, rfl⟩, .inr ⟨expanded, rfl, Bool.eq_false_iff.mpr noUrl, rfl, rfl⟩⟩

end Target

end Project

/-- A line is checked if it names a file and its target does not expand to a web address. -/
def Line.IsChecked (project : Project) (disk : Disk) (file : Text) (line : Line) : Prop :=
  ∃ name target, Line.RefersTo line.content name target ∧
    ∀ expanded, (project.expand disk file target project.config.maxSubstitutions).value = some expanded →
      isUrl expanded = false

namespace Reference

/-- What is reported for a line: where it is, the macro with its target as it is written, and how far the
files that the target may mean exist. -/
structure IsReportOf (project : Project) (disk : Disk) (file : Text) (numbered : Line × Nat)
    (reference : Reference) : Prop where
  place : reference.toLocation = ⟨file, numbered.2⟩
  refers : Line.RefersTo numbered.1.content reference.macroName reference.target
  ambiguous : reference.status = .ambiguous ↔
    (project.expand disk file reference.target project.config.maxSubstitutions).value = none
  undecided : reference.status = .ambiguous → reference.candidates = []
  decided : reference.status ≠ .ambiguous → reference.candidates ≠ [] ∧
    (∀ candidate ∈ reference.candidates, Path.isAbsolute candidate) ∧
    (reference.status = .resolved ↔ ∃ candidate ∈ reference.candidates, disk.exists? candidate)

/-- The order in which references are reported: by files, and by lines within a file. -/
def Before (first second : Reference) : Prop :=
  Text.le first.file second.file ∧ first.file ≠ second.file ∨
    first.file = second.file ∧ first.line < second.line

end Reference

namespace Project

variable {project : Project} {disk : Disk} {file : Text} {numbered : Line × Nat}

theorem exists_checkLine (isChecked : numbered.1.IsChecked project disk file) :
    ∃ reference, project.checkLine disk file numbered = some reference := by
  obtain ⟨name, target, refers, noUrl⟩ := isChecked
  obtain ⟨family, same⟩ := checkLine_of_refersTo refers
  obtain ⟨reference, reported⟩ := exists_checkTarget noUrl
  exact ⟨reference, same.trans reported⟩

theorem status_eq_resolved_iff {candidates : List Text} :
    (if candidates.any disk.exists? then ReferenceStatus.resolved else .missing) = .resolved ↔
      ∃ candidate ∈ candidates, disk.exists? candidate := by
  rw [← List.any_eq_true]
  split
  · next present => exact iff_of_true rfl present
  · next absent => exact iff_of_false (fun resolved => nomatch resolved) absent

section Checked

variable {reference : Reference} (checked : project.checkLine disk file numbered = some reference)

include checked

theorem place_of_checkLine : reference.toLocation = ⟨file, numbered.2⟩ := by
  obtain ⟨name, target, family, _, reported⟩ := exists_of_checkLine checked
  exact (checkTarget_cases reported).1.1

theorem isChecked_of_checkLine : numbered.1.IsChecked project disk file := by
  obtain ⟨name, target, family, refers, reported⟩ := exists_of_checkLine checked
  refine ⟨name, target, refers, fun expanded expands => ?_⟩
  obtain ⟨_, ⟨conflict, _⟩ | ⟨other, found, noUrl, _⟩⟩ := checkTarget_cases reported
  · exact nomatch expands.symm.trans conflict
  · cases expands.symm.trans found
    exact noUrl

theorem isReportOf_of_checkLine {directory : Text} (above : disk.parent? file = some directory) :
    reference.IsReportOf project disk file numbered := by
  obtain ⟨name, target, family, refers, reported⟩ := exists_of_checkLine checked
  obtain ⟨⟨place, rfl, rfl⟩, ⟨conflict, status, none⟩ | ⟨expanded, expands, _, candidates, status⟩⟩ :=
    checkTarget_cases reported
  · refine ⟨place, refers, iff_of_true status conflict, fun _ => none, fun decided => ?_⟩
    exact absurd status decided
  · have decided : reference.status ≠ .ambiguous := by
      rw [status]
      split <;> exact ReferenceStatus.noConfusion
    have conflicts : (project.expand disk file reference.target
        project.config.maxSubstitutions).value ≠ none := fun conflict =>
      nomatch expands.symm.trans conflict
    refine ⟨place, refers, iff_of_false decided conflicts, fun undecided => absurd undecided decided,
      fun _ => ⟨?nonempty, ?absolute, ?resolved⟩⟩
    case nonempty =>
      rw [candidates]
      exact (targetCandidates_spec above family).1
    case absolute =>
      rw [candidates]
      exact (targetCandidates_spec above family).2
    case resolved =>
      rw [status]
      exact status_eq_resolved_iff

end Checked

end Project

namespace Project

variable (project : Project) (disk : Disk)

theorem file_of_mem_checkDocument {file text : Text} {reference : Reference}
    (mem : reference ∈ (project.checkDocument disk file text).value) : reference.file = file := by
  rw [value_checkDocument, List.mem_filterMap] at mem
  obtain ⟨numbered, _, checked⟩ := mem
  rw [place_of_checkLine checked]

/-- The references of a document stand on later and later lines. -/
theorem pairwise_checkDocument (file text : Text) :
    (project.checkDocument disk file text).value.Pairwise Reference.Before := by
  rw [value_checkDocument, List.pairwise_filterMap]
  refine (Line.pairwise_outside text).imp ?_
  intro first second before reference checked other otherChecked
  rw [Reference.Before, place_of_checkLine checked, place_of_checkLine otherChecked]
  exact .inr ⟨rfl, before⟩

/-- The references of the file that is checked, if it can be read. -/
def checkFile (file : Text) : Noted (List Reference) :=
  match disk.readText? file with
  | none => return []
  | some text => project.checkDocument disk file text

theorem value_checkAll :
    (project.checkAll disk).value = ((findDocuments disk project.root project.config).map fun file =>
      (project.checkFile disk file).value).flatten := by
  rw [checkAll, Noted.value_bind, Noted.mapM_eq]
  rfl

theorem file_of_mem_checkFile {file : Text} {reference : Reference}
    (mem : reference ∈ (project.checkFile disk file).value) : reference.file = file := by
  rw [checkFile] at mem
  split at mem
  · cases mem
  · exact project.file_of_mem_checkDocument disk mem

theorem pairwise_checkFile (file : Text) :
    (project.checkFile disk file).value.Pairwise Reference.Before := by
  rw [checkFile]
  split
  · exact .nil
  · exact project.pairwise_checkDocument disk file _

open scoped Classical in
/-- The references of a document are the reports on its lines that are checked, one each and in order. On a
plain disk all references come in the order of their files and lines. -/
theorem checks_every_reference_once :
    (∀ file text, disk.canonical file ≠ "/" →
      List.Forall₂ (Reference.IsReportOf project disk file)
        ((Line.outside none ((Line.ofText text).zipIdx 1)).filter fun numbered =>
          numbered.1.IsChecked project disk file)
        (project.checkDocument disk file text).value) ∧
    (disk.root.isPlain → (project.checkAll disk).value.Pairwise Reference.Before) := by
  constructor
  · intro file text below
    obtain ⟨directory, above⟩ : ∃ directory, disk.parent? file = some directory := by
      refine Option.ne_none_iff_exists'.mp fun top => below ?_
      exact Path.parent?_eq_none_iff.mp top
    rw [value_checkDocument]
    apply forall₂_filter_filterMap
    · intro numbered _ kept
      obtain ⟨reference, checked⟩ := exists_checkLine (of_decide_eq_true kept)
      exact ⟨reference, checked, isReportOf_of_checkLine checked above⟩
    · intro numbered _ dropped
      cases checked : project.checkLine disk file numbered with
      | none => rfl
      | some reference => exact absurd (isChecked_of_checkLine checked) (of_decide_eq_false dropped)
  · intro rootPlain
    rw [value_checkAll, List.pairwise_flatten]
    constructor
    · intro references mem
      obtain ⟨file, _, rfl⟩ := List.mem_map.mp mem
      exact project.pairwise_checkFile disk file
    · rw [List.pairwise_map]
      refine (disk.pairwise_findFiles rootPlain _ _ _).imp ?_
      rintro first second ⟨before, differs⟩ reference mem other otherMem
      rw [Reference.Before, project.file_of_mem_checkFile disk mem,
        project.file_of_mem_checkFile disk otherMem]
      exact .inl ⟨before, differs⟩

/-- An image behind a listing in which another file is named. -/
theorem checks_every_reference_once_behind_listing :
    let text : Text := "----\ninclude::no.adoc[]\n----\nimage::x.png[X]\n"
    let disk : Disk :=
      { root := .directory [("proj", .directory [("a.adoc", .file text)])]
        cwd := "/proj"
        sound := ⟨by decide⟩ }
    let project : Project := ⟨"/proj", .default, none, Index.ofSources [], 0⟩
    let reference : Reference :=
      ⟨⟨"/proj/a.adoc", 4⟩, "image", "x.png", .missing, ["/proj/x.png"]⟩
    disk.canonical "/proj/a.adoc" ≠ "/" ∧ disk.root.isPlain ∧
    (project.checkDocument disk "/proj/a.adoc" text).value = [reference] ∧
    (∃ line, reference.IsReportOf project disk "/proj/a.adoc" (line, 4)) ∧
    (project.checkAll disk).value.Pairwise Reference.Before := by
  intro text disk project reference
  have below : disk.canonical "/proj/a.adoc" ≠ "/" := by decide +kernel
  have plain : disk.root.isPlain := by decide
  have lines : Line.outside none ((Line.ofText text).zipIdx 1) =
      [(⟨"image::x.png[X]", "\n"⟩, 4), (⟨"", ""⟩, 5)] := by
    decide +kernel
  have expands : (project.expand disk "/proj/a.adoc" "x.png" project.config.maxSubstitutions).value =
      some "x.png" := value_expand_of_find? (by decide)
  have checked : project.checkLine disk "/proj/a.adoc" (⟨"image::x.png[X]", "\n"⟩, 4) =
      some reference := by
    change (project.checkTarget disk ⟨"/proj/a.adoc", 4⟩ "image" "x.png" (some .images)).value =
      some reference
    rw [checkTarget, Noted.value_bind, expands]
    decide +kernel
  have value : (project.checkDocument disk "/proj/a.adoc" text).value = [reference] := by
    rw [value_checkDocument, lines, List.filterMap_cons_some checked]
    rfl
  obtain ⟨once, ascending⟩ := checks_every_reference_once project disk
  have reports := once "/proj/a.adoc" text below
  rw [value] at reports
  obtain ⟨numbered, _, isReport, _⟩ := List.forall₂_cons_right_iff.mp reports
  have number : 4 = numbered.2 := congrArg Location.line isReport.place
  refine ⟨below, plain, value, ⟨numbered.1, ?_⟩, ascending plain⟩
  rw [number]
  exact isReport

section Directory

open Disk (exists?_iff)

variable {project disk} {file directory : Text}

/-- What is resolved from an empty key is a directory, unless the key is echoed. -/
theorem isDirectory_of_mem_resolveFrom {family : Option Family} {candidate : Text}
    (mem : candidate ∈ (project.resolveFrom disk file [] family).value) :
    candidate = [] ∨ disk.isDirectory candidate := by
  rw [resolveFrom] at mem
  split at mem
  · exact .inl (List.mem_singleton.mp mem)
  · next moduleDir _ =>
      by_cases echoed : (project.resolve disk moduleDir [] family).value = [[]]
      · rw [echoed] at mem
        exact .inl (List.mem_singleton.mp mem)
      · obtain ⟨chosen, _, value⟩ := value_resolve_of_ne echoed
        rw [value, mem_existingFirst, mem_candidates_iff] at mem
        obtain ⟨_, _, _, found, reaches, rfl⟩ := mem
        obtain ⟨_, _, _, _, _, _, isDirectory, _⟩ := reaches.2
        refine .inr ?_
        rw [resourcePath, Key.remainder_ofText_nil]
        exact (List.append_nil found).symm ▸ isDirectory

/-- A target of which nothing is left means directories only. -/
theorem isDirectory_of_mem_targetCandidates (above : disk.parent? file = some directory)
    (isDirectory : disk.isDirectory directory) {family : Option Family} {candidate : Text}
    (mem : candidate ∈ (project.targetCandidates disk file [] family).value) :
    disk.isDirectory candidate := by
  have beside : disk.canonical (Path.joinParts [directory, []]) = directory := by
    obtain ⟨names, plain, rfl⟩ := Disk.exists_ofNames_of_parent? above
    rw [Path.joinParts_empty plain, Disk.canonical, Path.canonical_ofNames disk.cwd plain]
  have relative : Path.isAbsolute [] = false := rfl
  simp only [targetCandidates, relative, Bool.false_eq_true, if_false, above, beside] at mem
  have ofBeside : candidate ∈ [directory] → disk.isDirectory candidate := fun mem =>
    List.mem_singleton.mp mem ▸ isDirectory
  split at mem
  · simp only [Noted.value_bind, Noted.value_pure] at mem
    split at mem
    · exact ofBeside mem
    · obtain ⟨resolved, absolute⟩ := List.mem_filter.mp mem
      rcases isDirectory_of_mem_resolveFrom resolved with rfl | isDirectory
      · cases absolute
      · exact isDirectory
  · exact ofBeside mem

/-- A reference is resolved if one of its candidates is a file or a directory. One whose target expands to
nothing means directories only, and is resolved. -/
theorem resolved_iff_file_or_directory {text : Text} {reference : Reference}
    (mem : reference ∈ (project.checkDocument disk file text).value) :
    (reference.status = .resolved ↔ ∃ candidate ∈ reference.candidates,
      (∃ content, disk.readText? candidate = some content) ∨ disk.isDirectory candidate) ∧
    ∀ directory, disk.parent? file = some directory → disk.isDirectory directory →
      (project.expand disk file reference.target project.config.maxSubstitutions).value = some [] →
      reference.status = .resolved ∧ ∀ candidate ∈ reference.candidates, disk.isDirectory candidate := by
  rw [value_checkDocument, List.mem_filterMap] at mem
  obtain ⟨numbered, _, checked⟩ := mem
  obtain ⟨name, target, family, _, reported⟩ := exists_of_checkLine checked
  obtain ⟨⟨_, _, rfl⟩, ⟨conflict, status, none⟩ | ⟨expanded, expands, _, candidates, status⟩⟩ :=
    checkTarget_cases reported
  · constructor
    · rw [status, none]
      exact iff_of_false (fun resolved => nomatch resolved) (fun ⟨_, mem, _⟩ => nomatch mem)
    · intro directory above isDirectory expands
      exact nomatch conflict.symm.trans expands
  · have present : reference.status = .resolved ↔
        ∃ candidate ∈ reference.candidates, disk.exists? candidate := by
      rw [status]
      exact status_eq_resolved_iff
    refine ⟨?_, fun directory above isDirectory empty => ?_⟩
    · simp only [present, exists?_iff]
    · have isEmpty : expanded = [] := Option.some.inj (expands.symm.trans empty)
      subst isEmpty
      have directories : ∀ candidate ∈ reference.candidates, disk.isDirectory candidate := by
        rw [candidates]
        exact fun candidate mem => isDirectory_of_mem_targetCandidates above isDirectory mem
      obtain ⟨candidate, rest, listed⟩ := List.exists_cons_of_ne_nil
        (candidates ▸ (targetCandidates_spec above family).1)
      have mem : candidate ∈ reference.candidates := listed ▸ List.mem_cons_self
      exact ⟨present.mpr ⟨candidate, mem, disk.exists?_of_isDirectory (directories candidate mem)⟩,
        directories⟩

end Directory

/-- An image whose target is an attribute with an empty value. -/
theorem resolved_iff_file_or_directory_of_empty_value :
    let file : Text := "/proj/a.adoc"
    let text : Text := ":e:\nimage::\x7be\x7d[]\n"
    let disk : Disk :=
      { root := .directory [("proj", .directory [("a.adoc", .file text)])]
        cwd := "/proj"
        sound := ⟨by decide⟩ }
    let project : Project := ⟨"/proj", .default, none, Index.ofSources [⟨file, text⟩], 0⟩
    let reference : Reference := ⟨⟨file, 2⟩, "image", "\x7be\x7d", .resolved, ["/proj"]⟩
    reference ∈ (project.checkDocument disk file text).value ∧
    disk.parent? file = some "/proj" ∧ disk.isDirectory "/proj" ∧
    (project.expand disk file "\x7be\x7d" project.config.maxSubstitutions).value = some [] ∧
    reference.status = .resolved ∧ ∀ candidate ∈ reference.candidates, disk.isDirectory candidate := by
  intro file text disk project reference
  have lines : Line.outside none ((Line.ofText text).zipIdx 1) =
      [(⟨":e:", "\n"⟩, 1), (⟨"image::\x7be\x7d[]", "\n"⟩, 2), (⟨"", ""⟩, 3)] := by
    decide +kernel
  have expands : (project.expand disk file "\x7be\x7d" project.config.maxSubstitutions).value =
      some [] := by
    have replaces : Expansion.Step (project.valuesOf disk file)
        ⟨project.config.maxSubstitutions, [], "\x7be\x7d"⟩
        ⟨project.config.maxSubstitutions - 1, [], []⟩ :=
      @Expansion.Step.substitute _ (project.config.maxSubstitutions - 1) [] _ [] ⟨[], "e", []⟩
        (by decide) (by decide +kernel)
    exact value_expand_eq_some_iff.mpr ⟨_, .single replaces, rfl, rfl⟩
  have checked : project.checkLine disk file (⟨"image::\x7be\x7d[]", "\n"⟩, 2) = some reference := by
    change (project.checkTarget disk ⟨file, 2⟩ "image" "\x7be\x7d" (some .images)).value =
      some reference
    rw [checkTarget, Noted.value_bind, expands]
    decide +kernel
  have mem : reference ∈ (project.checkDocument disk file text).value := by
    rw [value_checkDocument, lines]
    exact List.mem_filterMap.mpr ⟨_, List.mem_cons_of_mem _ List.mem_cons_self, checked⟩
  have above : disk.parent? file = some "/proj" := by decide +kernel
  have isDirectory : disk.isDirectory "/proj" := by decide +kernel
  exact ⟨mem, above, isDirectory, expands,
    (resolved_iff_file_or_directory mem).2 _ above isDirectory expands⟩

/-- A dot leads to the directory of the document. -/
theorem resolved_reference_may_name_no_file :
    let file : Text := "/proj/a.adoc"
    let text : Text := "include::.[]\n"
    let disk : Disk :=
      { root := .directory [("proj", .directory [("a.adoc", .file text)])]
        cwd := "/proj"
        sound := ⟨by decide⟩ }
    let project : Project := ⟨"/proj", .default, none, Index.ofSources [⟨file, text⟩], 0⟩
    ¬ ∀ reference ∈ (project.checkDocument disk file text).value, reference.status = .resolved →
      ∃ candidate ∈ reference.candidates, disk.exists? candidate ∧ ¬ disk.isDirectory candidate := by
  intro file text disk project noDirectory
  have lines : Line.outside none ((Line.ofText text).zipIdx 1) =
      [(⟨"include::.[]", "\n"⟩, 1), (⟨"", ""⟩, 2)] := by
    decide +kernel
  have expands : (project.expand disk file "." project.config.maxSubstitutions).value = some "." :=
    value_expand_of_find? (by decide)
  have checked : project.checkLine disk file (⟨"include::.[]", "\n"⟩, 1) =
      some ⟨⟨file, 1⟩, "include", ".", .resolved, ["/proj"]⟩ := by
    change (project.checkTarget disk ⟨file, 1⟩ "include" "." none).value = _
    rw [checkTarget, Noted.value_bind, expands]
    decide +kernel
  rw [value_checkDocument, lines, List.filterMap_cons_some checked] at noDirectory
  obtain ⟨candidate, mem, _, noDirectory⟩ := noDirectory _ List.mem_cons_self rfl
  cases List.mem_singleton.mp mem
  exact noDirectory (by decide +kernel)

end Project

end Crossref

import Crossref.Proofs.ModuleDir
import Crossref.Proofs.Proximity
import Crossref.Proofs.Resolution.Target

/-! The files that a key may mean. Each module that the key names leads up to the closest module that keeps
the family, and the files there are ranked: those that exist come first. -/

set_option autoImplicit false

namespace Crossref

/-- A text that starts with a slash has no parts. -/
theorem Key.remainder_ofText_slash (rest : Text) : (ofText ('/' :: rest)).remainder = '/' :: rest := by
  have noVersion : readVersion ('/' :: rest) = (none, '/' :: rest) := rfl
  have noAddress : readAddress ('/' :: rest) = ((none, none), '/' :: rest) := rfl
  have noFamily : (readFamily ('/' :: rest)).1 = none := rfl
  simp only [ofText, noVersion, noAddress]
  exact readFamily_none noFamily

theorem Key.remainder_ofText_nil : (ofText []).remainder = [] := rfl

namespace Disk

variable {disk : Disk} {root : Text} {family : Family} {names : List Text} {start moduleDir found : Text}

/-- A module that keeps the family itself is where the search for it ends. -/
theorem ReachesFamily.eq_of_keepsFamily {own : Text}
    (reaches : disk.ReachesFamily root family start moduleDir found)
    (keeps : disk.KeepsFamily family start own) : moduleDir = start := by
  obtain ⟨run, _⟩ := reaches
  rcases run.cases_head with same | ⟨above, ⟨_, keepsNone, _⟩, _⟩
  · exact same.symm
  · exact absurd keeps (keepsNone own)

end Disk

namespace Project

variable {project : Project} {disk : Disk} {anchorDir key : Text} {defaultFamily : Option Family}

/-- The path of what a key leaves behind its parts, in the directory of a family. -/
def resourcePath (familyDir remainder : Text) : Text :=
  familyDir ++ if remainder.isEmpty then [] else '/' :: remainder

/-- Modules that a key names lie under plain names. -/
theorem exists_ofNames_of_mem_targetModules {parts : Key} {moduleDir : Text}
    (keyRun : ∀ run ∈ parts.moduleName, run.all isKeyChar)
    (mem : moduleDir ∈ (project.targetModules disk anchorDir parts).value) :
    ∃ names, Path.Plain names ∧ moduleDir = Path.ofNames names := by
  obtain ⟨anchor, target, _, completed, _, descriptor, described, lookedUp⟩ :=
    (project.mem_targetModules_iff disk anchorDir).mp mem
  obtain ⟨_, modules, present, below, _⟩ := Target.moduleDirIn?_eq_some_iff.mp lookedUp
  obtain ⟨front, lies⟩ := exists_liesAt described
  have clear : ∀ {c : Char}, isKeyChar c = false → c ∉ disk.name anchorDir → c ∉ target.moduleName :=
    fun other absent => completed ▸ Target.notMem_moduleName_ofKey keyRun other absent
  have noSlash := clear rfl fun slash => (Path.mem_of_mem_base slash).2 rfl
  have noBackslash := clear rfl fun backslash =>
    Path.notMem_toForwardSlashes _ (Path.mem_of_mem_base backslash).1
  have nonempty : target.moduleName ≠ [] := completed ▸ Target.moduleName_ofKey_ne_nil _ _
  have spelled := lies.modulesDir present
  obtain ⟨_, leads⟩ := (lies.child?_modulesDir_iff present nonempty noSlash noBackslash).mp below
  generalize target.moduleName = name at leads nonempty noSlash noBackslash
  cases leads with
  | module noDot noDots joined _ _ =>
      refine ⟨_, lies.plainModules.concat ⟨nonempty, noDot, noDots, noSlash⟩ noBackslash, ?_⟩
      rw [joined, spelled, Path.ofNames_concat (List.concat_ne_nil _ _)]
  | dot => exact ⟨_, lies.plainModules, spelled⟩
  | dots => exact ⟨front, lies.plain, lies.componentDir⟩

section Module

variable {family : Family} {remainder : Text} {names : List Text}

theorem candidateIn?_ofNames (plain : Path.Plain names) :
    project.candidateIn? disk family remainder (Path.ofNames names) =
      (disk.familyDir? project.root (Path.ofNames names) family).map fun familyDir =>
        resourcePath familyDir remainder := by
  rw [candidateIn?]
  cases found : disk.familyDir? project.root (Path.ofNames names) family with
  | none => rfl
  | some familyDir =>
      obtain ⟨moduleDir, reaches⟩ := (Disk.familyDir?_eq_some_iff plain).mp found
      obtain ⟨below, _, belowPlain, rfl⟩ := reaches.exists_ofNames plain
      simp only [Option.map_some, resourcePath,
        Path.toForwardSlashes_of_notMem (Path.notMem_ofNames belowPlain)]

theorem candidateIn?_eq_some_iff {candidate : Text} (plain : Path.Plain names) :
    project.candidateIn? disk family remainder (Path.ofNames names) = some candidate ↔
      ∃ moduleDir found, disk.ReachesFamily project.root family (Path.ofNames names) moduleDir found ∧
        candidate = resourcePath found remainder := by
  simp only [candidateIn?_ofNames plain, Option.map_eq_some_iff, Disk.familyDir?_eq_some_iff plain]
  constructor
  · rintro ⟨found, ⟨moduleDir, reaches⟩, rfl⟩
    exact ⟨moduleDir, found, reaches, rfl⟩
  · rintro ⟨moduleDir, found, reaches, rfl⟩
    exact ⟨found, ⟨moduleDir, reaches⟩, rfl⟩

/-- A key is never the path of what it leaves behind its own parts. -/
theorem candidateIn?_ne_key (plain : Path.Plain names) :
    project.candidateIn? disk family (Key.ofText key).remainder (Path.ofNames names) ≠ some key := by
  intro same
  obtain ⟨moduleDir, found, reaches, spelled⟩ := (candidateIn?_eq_some_iff plain).mp same
  obtain ⟨below, _, _, rfl⟩ := reaches.exists_ofNames plain
  have absolute : ∃ rest, key = '/' :: rest := ⟨_, spelled.trans (List.cons_append ..)⟩
  obtain ⟨rest, rfl⟩ := absolute
  rw [Key.remainder_ofText_slash] at spelled
  have lengths := congrArg List.length spelled
  simp [resourcePath] at lengths
  omega

end Module

/-- The candidates of a key before they are ranked. -/
def candidates (project : Project) (disk : Disk) (anchorDir : Text) (parts : Key) (family : Family) :
    List Text :=
  (project.targetModules disk anchorDir parts).value.filterMap
    (project.candidateIn? disk family parts.remainder)

theorem mem_candidates_iff {family : Family} {candidate : Text} :
    candidate ∈ project.candidates disk anchorDir (Key.ofText key) family ↔
      ∃ start ∈ (project.targetModules disk anchorDir (Key.ofText key)).value,
        ∃ moduleDir found, disk.ReachesFamily project.root family start moduleDir found ∧
          candidate = resourcePath found (Key.ofText key).remainder := by
  rw [candidates, List.mem_filterMap]
  apply exists_congr; intro start
  apply and_congr_right; intro mem
  obtain ⟨names, plain, rfl⟩ :=
    exists_ofNames_of_mem_targetModules (Key.canonical_ofText key).moduleName mem
  exact candidateIn?_eq_some_iff plain

theorem candidates_eq (family : Family) :
    project.candidates disk anchorDir (Key.ofText key) family =
      (project.targetModules disk anchorDir (Key.ofText key)).value.filterMap fun start =>
        (disk.familyDir? project.root start family).map fun familyDir =>
          resourcePath familyDir (Key.ofText key).remainder := by
  apply List.filterMap_congr
  intro start mem
  obtain ⟨names, plain, rfl⟩ :=
    exists_ofNames_of_mem_targetModules (Key.canonical_ofText key).moduleName mem
  exact candidateIn?_ofNames plain

theorem key_notMem_candidates {family : Family} :
    key ∉ project.candidates disk anchorDir (Key.ofText key) family := by
  intro mem
  obtain ⟨start, named, same⟩ := List.mem_filterMap.mp mem
  obtain ⟨names, plain, rfl⟩ :=
    exists_ofNames_of_mem_targetModules (Key.canonical_ofText key).moduleName named
  exact candidateIn?_ne_key plain same

theorem perm_existingFirst (disk : Disk) (paths : List Text) : (existingFirst disk paths).Perm paths :=
  List.filter_append_perm disk.exists? paths

theorem mem_existingFirst {paths : List Text} {path : Text} :
    path ∈ existingFirst disk paths ↔ path ∈ paths :=
  (perm_existingFirst disk paths).mem_iff

/-- Nothing that is missing comes before anything that exists, and both keep their order. -/
theorem existingFirst_spec (disk : Disk) (paths : List Text) :
    (existingFirst disk paths).Pairwise (fun first second => disk.exists? second → disk.exists? first) ∧
      (existingFirst disk paths).filter disk.exists? = paths.filter disk.exists? ∧
      (existingFirst disk paths).filter (fun path => !disk.exists? path) =
        paths.filter fun path => !disk.exists? path := by
  refine ⟨List.pairwise_append.mpr ⟨?existing, ?missing, ?between⟩, ?_, ?_⟩
  case existing =>
    exact List.pairwise_of_forall_mem_list fun first mem _ _ _ => (List.mem_filter.mp mem).2
  case missing =>
    apply List.pairwise_of_forall_mem_list
    intro _ _ second mem present
    have absent := (List.mem_filter.mp mem).2
    simp [present] at absent
  case between => exact fun first mem _ _ _ => (List.mem_filter.mp mem).2
  all_goals simp [existingFirst, List.filter_filter]

theorem value_resolve {anchor : Descriptor} {family : Family} (noUrl : isUrl key = false)
    (read : (Descriptor.readAnchor disk anchorDir).value = some anchor)
    (chosen : ((Key.ofText key).family.orElse fun _ => defaultFamily) = some family) :
    (project.resolve disk anchorDir key defaultFamily).value =
      if (project.candidates disk anchorDir (Key.ofText key) family).isEmpty then [key]
      else existingFirst disk (project.candidates disk anchorDir (Key.ofText key) family) := by
  simp only [resolve, noUrl, Bool.false_eq_true, if_false, Noted.value_bind, read, chosen,
    Noted.value_pure, candidates]
  rfl

/-- A key that is not echoed has a family and candidates. -/
theorem value_resolve_of_ne
    (answered : (project.resolve disk anchorDir key defaultFamily).value ≠ [key]) :
    ∃ family, ((Key.ofText key).family.orElse fun _ => defaultFamily) = some family ∧
      (project.resolve disk anchorDir key defaultFamily).value =
        existingFirst disk (project.candidates disk anchorDir (Key.ofText key) family) := by
  have noUrl : isUrl key = false := by
    refine Bool.eq_false_iff.mpr fun url => answered ?_
    simp only [resolve, url, if_true, Noted.value_pure]
  cases read : (Descriptor.readAnchor disk anchorDir).value with
  | none =>
      refine absurd ?_ answered
      simp only [resolve, noUrl, Bool.false_eq_true, if_false, Noted.value_bind, read, Noted.value_pure]
  | some anchor =>
      cases chosen : ((Key.ofText key).family.orElse fun _ => defaultFamily) with
      | none =>
          refine absurd ?_ answered
          simp only [resolve, noUrl, Bool.false_eq_true, if_false, Noted.value_bind, read, chosen,
            Noted.value_pure]
      | some family =>
          rw [value_resolve noUrl read chosen] at answered ⊢
          by_cases empty : (project.candidates disk anchorDir (Key.ofText key) family).isEmpty
          · rw [if_pos empty] at answered
            exact absurd rfl answered
          · exact ⟨family, rfl, if_neg empty⟩

/-- A key that is not echoed means the files that lie where the search for its family ends, seen from the
modules that it names. The search ends in the module itself if this keeps the family. -/
theorem mem_resolve_iff_reachesFamily
    (answered : (project.resolve disk anchorDir key defaultFamily).value ≠ [key]) :
    ∃ family, ((Key.ofText key).family.orElse fun _ => defaultFamily) = some family ∧
      (∀ candidate, candidate ∈ (project.resolve disk anchorDir key defaultFamily).value ↔
        ∃ start ∈ (project.targetModules disk anchorDir (Key.ofText key)).value,
          ∃ moduleDir found, disk.ReachesFamily project.root family start moduleDir found ∧
            candidate = resourcePath found (Key.ofText key).remainder) ∧
      ∀ start ∈ (project.targetModules disk anchorDir (Key.ofText key)).value,
        ∀ moduleDir found own, disk.ReachesFamily project.root family start moduleDir found →
          disk.KeepsFamily family start own → moduleDir = start ∧ found = own := by
  obtain ⟨family, chosen, value⟩ := value_resolve_of_ne answered
  refine ⟨family, chosen, fun candidate => ?_, ?_⟩
  · rw [value, mem_existingFirst]
    exact mem_candidates_iff
  · intro start mem moduleDir found own reaches keeps
    obtain ⟨names, plain, rfl⟩ :=
      exists_ofNames_of_mem_targetModules (Key.canonical_ofText key).moduleName mem
    have there := (Disk.familyDir?_eq_some_iff plain).mpr ⟨moduleDir, reaches⟩
    have ends : disk.ReachesFamily project.root family (Path.ofNames names) (Path.ofNames names) own :=
      ⟨.refl, keeps⟩
    have here := (Disk.familyDir?_eq_some_iff plain).mpr ⟨_, ends⟩
    exact ⟨reaches.eq_of_keepsFamily keeps, Option.some.inj (there.symm.trans here)⟩

/-- A module that keeps its images itself. -/
theorem mem_resolve_iff_reachesFamily_of_image :
    let disk : Disk :=
      { root := .directory [("proj", .directory [("antora.yml", .file "name: c
"),
          ("modules", .directory [("m", .directory [("images", .directory [])])])])]
        cwd := "/proj"
        sound := ⟨by decide⟩ }
    let project : Project := ⟨"/proj", .default, none, Index.ofSources [], 0⟩
    (project.resolve disk "/proj/modules/m" "image$a.png" none).value ≠ ["image$a.png"] ∧
    ∃ moduleDir found, disk.ReachesFamily "/proj" .images "/proj/modules/m" moduleDir found ∧
      ("/proj/modules/m/images/a.png" : Text) = resourcePath found "a.png" := by
  intro disk project
  have value : (project.resolve disk "/proj/modules/m" "image$a.png" none).value =
      [("/proj/modules/m/images/a.png" : Text)] := by
    decide +kernel
  have modules : (project.targetModules disk "/proj/modules/m" (Key.ofText "image$a.png")).value =
      [("/proj/modules/m" : Text)] := by
    decide +kernel
  have answered : (project.resolve disk "/proj/modules/m" "image$a.png" none).value ≠
      ["image$a.png"] := by
    rw [value]
    decide
  obtain ⟨family, chosen, candidates, _⟩ := mem_resolve_iff_reachesFamily answered
  cases chosen
  rw [value, modules] at candidates
  obtain ⟨start, named, moduleDir, found, reaches, spelled⟩ :=
    (candidates _).mp (List.mem_singleton_self _)
  rw [List.mem_singleton.mp named] at reaches
  exact ⟨answered, moduleDir, found, reaches, spelled⟩

/-- A component may lie in a module of another one. Images that its module lacks are then looked for in
the outer module, which the key does not name. -/
theorem candidate_may_lie_in_outer_module :
    let inner : List (Text × Entry) := [("images", .directory []), ("antora.yml", .file "name: d\n"),
      ("modules", .directory [("n", .directory [])])]
    let disk : Disk :=
      { root := .directory [("proj", .directory [("antora.yml", .file "name: c\n"),
          ("modules", .directory [("m", .directory inner)])])]
        cwd := "/proj"
        sound := ⟨by decide⟩ }
    let project : Project := ⟨"/proj", .default, none, Index.ofSources [], 0⟩
    let anchorDir : Text := "/proj/modules/m/modules/n"
    (project.resolve disk anchorDir "image$a.png" none).value ≠ ["image$a.png"] ∧
    ¬ ∀ candidate ∈ (project.resolve disk anchorDir "image$a.png" none).value,
      ∃ moduleDir ∈ (project.targetModules disk anchorDir (Key.ofText "image$a.png")).value,
        ∃ names ∈ Family.images.directories,
          candidate = resourcePath (moduleDir ++ '/' :: Text.join "/" names) "a.png" := by
  intro inner disk project anchorDir
  let outerDescriptor : Descriptor := ⟨⟨some "c", none, none, []⟩, "/proj/antora.yml", "/proj",
    some "/proj/modules", [⟨"m", "/proj/modules/m"⟩]⟩
  let innerDescriptor : Descriptor := ⟨⟨some "d", none, none, []⟩, "/proj/modules/m/antora.yml",
    "/proj/modules/m", some "/proj/modules/m/modules", [⟨"n", anchorDir⟩]⟩
  have files : project.findFilesNamed disk descriptorName =
      [("/proj/antora.yml" : Text), "/proj/modules/m/antora.yml"] :=
    findFilesNamed_of_ascending (by decide +kernel) (by decide +kernel)
  have read : (project.readDescriptors disk).value = [outerDescriptor, innerDescriptor] := by
    rw [value_readDescriptors, files]
    decide +kernel
  have anchored : (Descriptor.readAnchor disk anchorDir).value = some innerDescriptor := by
    decide +kernel
  have sorted : Descriptor.sortByProximity [outerDescriptor, innerDescriptor] anchorDir =
      [innerDescriptor, outerDescriptor] :=
    Descriptor.sortByProximity_pair (by decide +kernel)
  have modules : (project.targetModules disk anchorDir (Key.ofText "image$a.png")).value =
      [anchorDir] := by
    rw [project.value_targetModules disk _ anchored rfl rfl, read, sorted]
    decide +kernel
  have value : (project.resolve disk anchorDir "image$a.png" none).value =
      [("/proj/modules/m/images/a.png" : Text)] := by
    rw [value_resolve rfl anchored rfl, candidates, modules]
    decide +kernel
  rw [value, modules]
  decide +kernel

/-- The candidates of a key are the resources in the modules that it names, closest component first, and
they are ranked by whether they exist. A key is echoed when it has no candidates. -/
theorem resolve_ranks_candidates {anchor : Descriptor} {family : Family}
    (read : (Descriptor.readAnchor disk anchorDir).value = some anchor) (noUrl : isUrl key = false)
    (chosen : ((Key.ofText key).family.orElse fun _ => defaultFamily) = some family) :
    let target := Target.ofKey ⟨anchor.name, disk.name anchorDir, anchor.version⟩ (Key.ofText key)
    let modules := (project.targetModules disk anchorDir (Key.ofText key)).value
    let candidates := modules.filterMap fun moduleDir =>
      (disk.familyDir? project.root moduleDir family).map fun familyDir =>
        resourcePath familyDir (Key.ofText key).remainder
    let results := (project.resolve disk anchorDir key defaultFamily).value
    (∃ descriptors : List Descriptor, descriptors.Perm (project.readDescriptors disk).value ∧
      descriptors.Pairwise (Descriptor.Ahead anchorDir) ∧
      modules = if target.component.isNone then []
        else descriptors.filterMap (target.moduleDirIn? disk)) ∧
    (results = [key] ↔ candidates = []) ∧
    (candidates ≠ [] → results.Perm candidates ∧
      results.Pairwise (fun first second => disk.exists? second → disk.exists? first) ∧
      results.filter disk.exists? = candidates.filter disk.exists? ∧
      results.filter (fun path => !disk.exists? path) =
        candidates.filter fun path => !disk.exists? path) := by
  intro target modules candidates results
  have gathered : project.candidates disk anchorDir (Key.ofText key) family = candidates :=
    candidates_eq family
  have value : results = if candidates.isEmpty then [key] else existingFirst disk candidates := by
    rw [← gathered]
    exact value_resolve noUrl read chosen
  refine ⟨⟨Descriptor.sortByProximity (project.readDescriptors disk).value anchorDir,
    ?sorted, ?ahead, ?named⟩, ⟨?echoed, ?empty⟩, ?ranked⟩
  case sorted =>
    rw [Descriptor.sortByProximity_eq_mergeSort]
    exact List.mergeSort_perm _ _
  case ahead =>
    exact Descriptor.pairwise_sortByProximity (project.pairwise_readDescriptors disk) anchorDir
  case named => exact project.value_targetModules_eq_ite disk anchorDir read rfl
  case echoed =>
    intro echoed
    by_contra nonempty
    rw [value, if_neg (by simpa using nonempty)] at echoed
    have listed : key ∈ existingFirst disk candidates := by
      rw [echoed]
      exact List.mem_singleton_self key
    rw [mem_existingFirst, ← gathered] at listed
    exact key_notMem_candidates listed
  case empty =>
    intro empty
    rw [value, empty]
    rfl
  case ranked =>
    intro nonempty
    rw [value, if_neg (by simpa using nonempty)]
    exact ⟨perm_existingFirst disk candidates, existingFirst_spec disk candidates⟩

/-- An image that exists only in the copy of a component that is further away. -/
theorem resolve_ranks_candidates_of_copies :
    let component (images : List (Text × Entry)) : Entry :=
      .directory [("antora.yml", .file "name: c\n"),
        ("modules", .directory [("m", .directory [("images", .directory images)])])]
    let disk : Disk :=
      { root := .directory [("proj", .directory [("a", component []),
          ("b", component [("x.png", .file "")])])]
        cwd := "/proj"
        sound := ⟨by decide⟩ }
    let project : Project := ⟨"/proj", .default, none, Index.ofSources [], 0⟩
    let near : Text := "/proj/a/modules/m/images/x.png"
    let far : Text := "/proj/b/modules/m/images/x.png"
    let anchor : Descriptor := ⟨⟨some "c", none, none, []⟩, "/proj/a/antora.yml", "/proj/a",
      some "/proj/a/modules", [⟨"m", "/proj/a/modules/m"⟩]⟩
    let results := (project.resolve disk "/proj/a/modules/m" "x.png" (some .images)).value
    (Descriptor.readAnchor disk "/proj/a/modules/m").value = some anchor ∧ isUrl "x.png" = false ∧
    ((Key.ofText "x.png").family.orElse fun _ => some .images) = some .images ∧
    results.Perm [near, far] ∧ results.filter disk.exists? = [far] ∧
    results.filter (fun path => !disk.exists? path) = [near] := by
  intro component disk project near far anchor results
  let copy : Descriptor := ⟨⟨some "c", none, none, []⟩, "/proj/b/antora.yml", "/proj/b",
    some "/proj/b/modules", [⟨"m", "/proj/b/modules/m"⟩]⟩
  have files : project.findFilesNamed disk descriptorName =
      [("/proj/a/antora.yml" : Text), "/proj/b/antora.yml"] :=
    findFilesNamed_of_ascending (by decide +kernel) (by decide +kernel)
  have descriptors : (project.readDescriptors disk).value = [anchor, copy] := by
    rw [value_readDescriptors, files]
    decide +kernel
  have read : (Descriptor.readAnchor disk "/proj/a/modules/m").value = some anchor := by
    decide +kernel
  have noUrl : isUrl "x.png" = false := by decide
  have chosen : ((Key.ofText "x.png").family.orElse fun _ => some .images) = some .images := by decide
  have sorted : Descriptor.sortByProximity [anchor, copy] "/proj/a/modules/m" = [anchor, copy] := by
    rw [Descriptor.sortByProximity_eq_mergeSort]
    exact List.mergeSort_of_pairwise (by decide +kernel)
  have modules : (project.targetModules disk "/proj/a/modules/m" (Key.ofText "x.png")).value =
      [("/proj/a/modules/m" : Text), "/proj/b/modules/m"] := by
    rw [project.value_targetModules disk _ read rfl rfl, descriptors, sorted]
    decide +kernel
  obtain ⟨_, _, ranked⟩ := @resolve_ranks_candidates project _ _ _ _ _ _ read noUrl chosen
  have gathered : (["/proj/a/modules/m", "/proj/b/modules/m"] : List Text).filterMap (fun moduleDir =>
      (disk.familyDir? "/proj" moduleDir .images).map fun familyDir =>
        resourcePath familyDir (Key.ofText "x.png").remainder) = [near, far] := by
    decide +kernel
  rw [modules, gathered] at ranked
  obtain ⟨perm, _, existing, missing⟩ := ranked (List.cons_ne_nil _ _)
  refine ⟨read, noUrl, chosen, perm, existing.trans ?_, missing.trans ?_⟩
  all_goals decide +kernel

end Project

end Crossref

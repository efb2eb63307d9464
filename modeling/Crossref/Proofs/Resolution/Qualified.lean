import Crossref.Proofs.Descriptor
import Crossref.Proofs.Key
import Crossref.Resolution

/-! Keys with nothing left out. A key names the same modules once its missing parts are written with
those of the anchor, and it means the same files once its family is written with the default. -/

set_option autoImplicit false

namespace Crossref

namespace Key

/-- The key with everything in front of its family written out. The missing version of an anchor is
written as the empty one. -/
def qualified (anchor : Target) (key : Key) : Key :=
  { key with
    version := some (key.version.getD (anchor.version.getD []))
    component := key.component.orElse fun _ => anchor.component
    moduleName := key.moduleName.orElse fun _ =>
      if key.component.isNone then some anchor.moduleName else none }

def withFamily (family : Family) (key : Key) : Key := { key with family := some family }

theorem canonical_withFamily {key : Key} (canonical : key.Canonical) (family : Family) :
    (key.withFamily family).Canonical :=
  { canonical with
    noFamily := fun absent => nomatch absent
    noAddress := fun absent => nomatch absent
    noVersion := fun absent => nomatch absent }

/-- Parts of an anchor that a key can spell complete a key that was read to one that is read back. -/
theorem canonical_qualified {key : Key} (canonical : key.Canonical) {anchor : Target}
    (componentRun : ∀ run ∈ anchor.component, run.all isKeyChar)
    (moduleRun : anchor.moduleName.all isKeyChar)
    (versionRun : ∀ run ∈ anchor.version, run.all isKeyChar) :
    (key.qualified anchor).Canonical := by
  obtain ⟨version, component, moduleName, family, remainder⟩ := key
  have named : (moduleName.orElse fun _ =>
      if component.isNone then some anchor.moduleName else none).isSome := by
    have addressed := canonical.addressed
    cases component <;> cases moduleName <;> simp_all
  constructor
  case version =>
    rintro run ⟨⟩
    cases version with
    | some run => exact canonical.version run rfl
    | none =>
        cases spelled : anchor.version with
        | none => rfl
        | some run => exact versionRun run spelled
  case component =>
    intro run present
    cases component with
    | some name => exact canonical.component run present
    | none => exact componentRun run present
  case moduleName =>
    intro run present
    cases moduleName with
    | some name => exact canonical.moduleName run present
    | none =>
        cases component with
        | none =>
            cases present
            exact moduleRun
        | some name => cases present
  case addressed => exact fun _ => named
  case noFamily => exact canonical.noFamily
  case noAddress =>
    intro noFamily noComponent
    cases component with
    | none => exact canonical.noAddress noFamily rfl
    | some name => cases noComponent
  case noVersion => exact fun _ _ noVersion => nomatch noVersion

end Key

theorem Target.ofKey_qualified {anchor : Target} (nonempty : anchor.version ≠ some []) (key : Key) :
    ofKey anchor (key.qualified anchor) = ofKey anchor key := by
  obtain ⟨version, component, moduleName, family, remainder⟩ := key
  obtain ⟨anchorComponent, anchorModule, anchorVersion⟩ := anchor
  simp only [ofKey, Key.qualified, Target.mk.injEq]
  refine ⟨?component, ?moduleName, ?version⟩
  case component => cases component <;> cases anchorComponent <;> rfl
  case moduleName => cases moduleName <;> cases component <;> rfl
  case version =>
    cases version with
    | some run => rfl
    | none =>
        cases anchorVersion with
        | none => rfl
        | some run => simpa using fun empty : run = [] => nonempty (congrArg some empty)

/-- The text of a web address is never read as a key with a family. -/
theorem family_of_isUrl {text : Text} (url : isUrl text) : (Key.ofText text).family = none := by
  obtain ⟨scheme, known, starts⟩ := List.any_eq_true.mp url
  obtain ⟨rest, rfl⟩ := List.isPrefixOf_iff_prefix.mp starts
  have keyRun : scheme.all isKeyChar := by
    have schemes : ∀ scheme ∈ (["https", "http", "file", "ftp", "irc"] : List Text),
        scheme.all isKeyChar := by decide
    exact schemes scheme known
  have written : scheme ++ "://".toList ++ rest = scheme ++ ':' :: ('/' :: '/' :: rest) := by simp
  have noVersion : runBefore? '@' (scheme ++ ':' :: ('/' :: '/' :: rest)) = none :=
    runBefore?_append_of_ne keyRun (by decide) (by decide) _
  have named : runBefore? ':' (scheme ++ ':' :: ('/' :: '/' :: rest)) =
      some (scheme, '/' :: '/' :: rest) := runBefore?_append keyRun (by decide) _
  have unnamed : runBefore? ':' ('/' :: '/' :: rest) = none := rfl
  simp only [written, Key.ofText, Key.readVersion, noVersion, Key.readAddress, named, unnamed]
  rfl

namespace Project

/-- The modules that keys name depend on what the keys leave out only through the anchor. -/
theorem targetModules_congr (project : Project) {disk : Disk} {anchorDir : Text} {key other : Key}
    (same : ∀ anchor ∈ (Descriptor.readAnchor disk anchorDir).value,
      Target.ofKey ⟨anchor.name, disk.name anchorDir, anchor.version⟩ key =
        Target.ofKey ⟨anchor.name, disk.name anchorDir, anchor.version⟩ other) :
    project.targetModules disk anchorDir key = project.targetModules disk anchorDir other := by
  simp only [targetModules, bind]
  cases found : (Descriptor.readAnchor disk anchorDir).value with
  | none => rfl
  | some anchor => simp only [same anchor found]

/-- A key that is not echoed means the same files when its family is written as when it is the
default. -/
theorem resolve_withFamily (project : Project) {disk : Disk} {anchorDir key : Text}
    {family : Family} (noFamily : (Key.ofText key).family = none)
    (answered : (project.resolve disk anchorDir key (some family)).value ≠ [key]) :
    project.resolve disk anchorDir ((Key.ofText key).withFamily family).toText none =
      project.resolve disk anchorDir key (some family) := by
  have readBack := Key.ofText_toText (Key.canonical_withFamily (Key.canonical_ofText key) family)
  have noUrl : isUrl key = false := by
    refine Bool.eq_false_iff.mpr fun url => answered ?_
    simp [resolve, url]
  have writtenNoUrl : isUrl ((Key.ofText key).withFamily family).toText = false := by
    refine Bool.eq_false_iff.mpr fun url => ?_
    have absent := family_of_isUrl url
    rw [readBack] at absent
    cases absent
  have modules : project.targetModules disk anchorDir ((Key.ofText key).withFamily family) =
      project.targetModules disk anchorDir (Key.ofText key) :=
    project.targetModules_congr fun _ _ => rfl
  have sameRemainder : ((Key.ofText key).withFamily family).remainder = (Key.ofText key).remainder :=
    rfl
  have chosen : ((Key.ofText key).withFamily family).family = some family := rfl
  simp only [resolve, noUrl, writtenNoUrl, readBack, Bool.false_eq_true, if_false, bind] at answered ⊢
  cases found : (Descriptor.readAnchor disk anchorDir).value with
  | none => simp [found] at answered
  | some anchor =>
      simp only [found, noFamily, chosen, Option.orElse_none, Option.orElse_some, modules,
        sameRemainder] at answered ⊢
      split at answered
      · exact absurd rfl answered
      · next candidates => simp only [if_neg candidates]

/-- A key that leaves parts out and the key with these parts written out mean the same: the parts
in front of the family name the same modules, and the family leads to the same files. -/
theorem written_out_keys_mean_the_same (project : Project) (disk : Disk) (anchorDir : Text) :
    (∀ anchor name, (Descriptor.readAnchor disk anchorDir).value = some anchor →
      anchor.name = some name → name.all isKeyChar →
      (∀ version ∈ anchor.version, version.all isKeyChar) → (disk.name anchorDir).all isKeyChar →
      ∀ key : Text,
        project.targetModules disk anchorDir (Key.ofText
          ((Key.ofText key).qualified ⟨anchor.name, disk.name anchorDir, anchor.version⟩).toText) =
        project.targetModules disk anchorDir (Key.ofText key)) ∧
    ∀ key family, (Key.ofText key).family = none →
      (project.resolve disk anchorDir key (some family)).value ≠ [key] →
      project.resolve disk anchorDir ((Key.ofText key).withFamily family).toText none =
        project.resolve disk anchorDir key (some family) := by
  constructor
  · intro anchor name found named nameRun versionRun moduleRun key
    have componentRun : ∀ run ∈ anchor.name, run.all isKeyChar := by
      rintro run present
      rw [named] at present
      cases present
      exact nameRun
    have canonical : ((Key.ofText key).qualified
        ⟨anchor.name, disk.name anchorDir, anchor.version⟩).Canonical :=
      Key.canonical_qualified (Key.canonical_ofText key) componentRun moduleRun versionRun
    rw [Key.ofText_toText canonical]
    refine project.targetModules_congr fun other read => ?_
    have same : anchor = other := Option.some.inj (found.symm.trans read)
    subst same
    exact Target.ofKey_qualified (Descriptor.grounded_of_readAnchor found).version _
  · exact fun key family => project.resolve_withFamily

/-- A versioned component with one module, in which there is one image. -/
theorem written_out_keys_mean_the_same_in_versioned_component :
    let disk : Disk :=
      { root := .directory [("p", .directory [("antora.yml", .file "name: c\nversion: v\n"),
          ("modules", .directory [("m", .directory [("images", .directory [
            ("b.png", .file "")])])])])]
        cwd := "/p"
        sound := ⟨by decide⟩ }
    let project : Project := ⟨"/p", .default, none, Index.ofSources [], 0⟩
    let anchor : Descriptor := ⟨⟨some "c", some "v", none, []⟩, "/p/antora.yml", "/p",
      some "/p/modules", [⟨"m", "/p/modules/m"⟩]⟩
    (Descriptor.readAnchor disk "/p/modules/m").value = some anchor ∧
    (project.targetModules disk "/p/modules/m" (Key.ofText "v@c:m:a$b.png") =
      project.targetModules disk "/p/modules/m" (Key.ofText "a$b.png")) ∧
    (project.resolve disk "/p/modules/m" "b.png" (some .images)).value =
      [("/p/modules/m/images/b.png" : Text)] ∧
    project.resolve disk "/p/modules/m" "image$b.png" none =
      project.resolve disk "/p/modules/m" "b.png" (some .images) := by
  intro disk project anchor
  have found : (Descriptor.readAnchor disk "/p/modules/m").value = some anchor := by
    decide +kernel
  have answered : (project.resolve disk "/p/modules/m" "b.png" (some .images)).value =
      [("/p/modules/m/images/b.png" : Text)] := by
    decide +kernel
  obtain ⟨qualified, written⟩ := written_out_keys_mean_the_same project disk "/p/modules/m"
  refine ⟨found, ?_, answered, ?_⟩
  · exact qualified anchor "c" found rfl (by decide) (by decide) (by decide) "a$b.png"
  · refine written "b.png" .images (by decide) fun echoed => ?_
    exact absurd (answered.symm.trans echoed) (by decide)

end Project

end Crossref

import Crossref.Config.Rules
import Crossref.Project
import Crossref.Proofs.Text.LowerCase

/-! Which names are documents. The extensions of a configuration that follows the rules are dots with a
name behind them, so a document's name is some text with one of them behind it. -/

set_option autoImplicit false

namespace Crossref

namespace Config

/-- Values without violations are an array of texts that meet the requirement. -/
theorem texts_of_checkTexts {path : Text} {requirement : Requirement} {meets : Text → Bool} {value : Json}
    (valid : checkTexts path requirement meets value = []) :
    ∃ items, value = .array items ∧ ∀ item ∈ items, ∃ text, item = .string text ∧ meets text := by
  cases value with
  | array items =>
      refine ⟨items, rfl, fun item mem => ?_⟩
      obtain ⟨index, numbered⟩ : ∃ index, (item, index) ∈ items.zipIdx := by
        obtain ⟨index, bound, rfl⟩ := List.getElem_of_mem mem
        exact ⟨index, List.mk_mem_zipIdx_iff_getElem?.mpr (List.getElem?_eq_getElem bound)⟩
      have passed := List.flatMap_eq_nil_iff.mp valid _ numbered
      cases item with
      | string text =>
          refine ⟨text, rfl, ?_⟩
          by_contra fails
          rw [Bool.not_eq_true] at fails
          simp [demand, fails] at passed
      | _ => cases passed
  | _ => cases valid

theorem exists_members_of_ofJson {value : Json} {config : Config} (valid : ofJson value = .ok config) :
    ∃ members, value = .object members ∧ check value = [] ∧ config = ofMembers members := by
  unfold ofJson at valid
  split at valid
  · next members passed =>
      cases valid
      exact ⟨members, rfl, passed, rfl⟩
  · cases valid

theorem checkMember_of_check {members : List (Text × Json)} (valid : check (.object members) = [])
    {name : Text} (known : name ∈ knownNames) {value : Json}
    (found : Members.get? name members = some value) : checkMember name value = [] := by
  obtain ⟨_, passed⟩ := List.append_eq_nil_iff.mp valid
  have member := List.flatMap_eq_nil_iff.mp passed name known
  rwa [found] at member

theorem isExtension_of_ofJson {value : Json} {config : Config} (valid : ofJson value = .ok config) :
    ∀ configured ∈ config.documentExtensions, isExtension configured := by
  obtain ⟨members, rfl, passed, rfl⟩ := exists_members_of_ofJson valid
  cases found : Members.get? extensionsName members with
  | none =>
      simp only [ofMembers, found]
      decide
  | some texts =>
      have checked : checkTexts ('/' :: extensionsName) .extension isExtension texts = [] :=
        checkMember_of_check passed (by decide) found
      obtain ⟨items, rfl, meets⟩ := texts_of_checkTexts checked
      intro configured mem
      simp only [ofMembers, found, Option.bind_some, texts?, Option.getD_some] at mem
      obtain ⟨item, listed, read⟩ := List.mem_filterMap.mp mem
      obtain ⟨text, rfl, isExtension⟩ := meets item listed
      cases read
      exact isExtension

theorem isDotted_of_isExtension {text : Text} (accepted : isExtension text) : Text.IsDotted text := by
  unfold isExtension at accepted
  split at accepted
  · next name =>
      simp only [Bool.and_eq_true, Bool.not_eq_true', List.isEmpty_eq_false_iff, List.any_eq_false,
        Bool.or_eq_true, decide_eq_true_eq, not_or] at accepted
      exact ⟨name, rfl, accepted.1, fun dot => (accepted.2 '.' dot).1.1 rfl⟩
  · cases accepted

end Config

namespace Path

/-- The extension of a file name stands behind other text. -/
theorem extension_append {stem extension : Text} (nonempty : stem ≠ [])
    (dotted : Text.IsDotted extension) : Path.extension (stem ++ extension) = extension := by
  obtain ⟨name, rfl, nameNonempty, noDot⟩ := dotted
  have notDot : ∀ c ∈ name.reverse, decide (c ≠ '.') = true := by
    intro c mem
    refine decide_eq_true fun dot => noDot ?_
    exact dot ▸ List.mem_reverse.mp mem
  have after : ((stem ++ '.' :: name).reverse.takeWhile (· ≠ '.')).reverse = name := by
    have turned : (stem ++ '.' :: name).reverse = name.reverse ++ '.' :: stem.reverse := by simp
    rw [turned, List.takeWhile_append_of_pos notDot]
    simp
  have other : stem ++ '.' :: name ≠ ".." := by
    intro same
    have stemLength := List.length_pos_iff.mpr nonempty
    have nameLength := List.length_pos_iff.mpr nameNonempty
    have lengths := congrArg List.length same
    simp only [List.length_append, List.length_cons] at lengths
    change _ = 2 at lengths
    omega
  have shorter : name.length + 1 < (stem ++ '.' :: name).length := by
    have stemLength := List.length_pos_iff.mpr nonempty
    rw [List.length_append, List.length_cons]
    omega
  simp only [extension, after, other, shorter, ne_eq, not_false_eq_true, decide_true, Bool.and_self,
    if_true]

/-- What is not empty of an extension is a dot and what follows the last dot of the name. -/
theorem exists_stem_of_extension {name : Text} (dotted : Text.IsDotted (Path.extension name)) :
    ∃ stem, stem ≠ [] ∧ name = stem ++ Path.extension name := by
  dsimp only [Path.extension] at dotted ⊢
  split at dotted
  · next long =>
      rw [if_pos long]
      simp only [Bool.and_eq_true, decide_eq_true_eq] at long
      have cut := List.takeWhile_append_dropWhile (p := (· ≠ '.')) (l := name.reverse)
      cases behind : name.reverse.dropWhile (· ≠ '.') with
      | nil =>
          -- without a dot all of the name would stand behind the last one
          rw [behind, List.append_nil] at cut
          have lengths := long.1
          rw [cut, List.reverse_reverse] at lengths
          omega
      | cons dot stem =>
          have isDot : dot = '.' := by
            have stops := List.head?_dropWhile_not (fun c => decide (c ≠ '.')) name.reverse
            rw [behind] at stops
            simpa using stops
          rw [behind, isDot] at cut
          have whole := congrArg List.reverse cut
          rw [List.reverse_reverse, List.reverse_append, List.reverse_cons, List.append_assoc,
            List.singleton_append] at whole
          refine ⟨stem.reverse, fun empty => ?_, whole.symm⟩
          rw [empty, List.nil_append] at whole
          have lengths := long.1
          rw [← congrArg List.length whole, List.length_cons] at lengths
          omega
  · obtain ⟨name, same, _⟩ := dotted
    cases same

end Path

namespace Project

/-- Text with a configured extension behind it, in small or capital letters. -/
def HasExtension (config : Config) (name : Text) : Prop :=
  ∃ stem extension configured, stem ≠ [] ∧ name = stem ++ extension ∧
    configured ∈ config.documentExtensions ∧ Text.lower extension = Text.lower configured

theorem isDocumentName_iff {config : Config} {name : Text}
    (valid : ∀ configured ∈ config.documentExtensions, Config.isExtension configured) :
    isDocumentName config name ↔ HasExtension config name := by
  have dotted : ∀ {extension configured}, configured ∈ config.documentExtensions →
      Text.lower extension = Text.lower configured → Text.IsDotted extension := by
    intro extension configured mem same
    rw [← Text.isDotted_lower_iff, same, Text.isDotted_lower_iff]
    exact Config.isDotted_of_isExtension (valid configured mem)
  rw [isDocumentName, List.contains_iff_mem, List.mem_map]
  constructor
  · rintro ⟨configured, mem, same⟩
    obtain ⟨stem, nonempty, spelled⟩ := Path.exists_stem_of_extension (dotted mem same.symm)
    exact ⟨stem, _, configured, nonempty, spelled, mem, same.symm⟩
  · rintro ⟨stem, extension, configured, nonempty, rfl, mem, same⟩
    refine ⟨configured, mem, ?_⟩
    rw [Path.extension_append nonempty (dotted mem same), same]

end Project

end Crossref

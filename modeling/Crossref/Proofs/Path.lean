import Mathlib.Data.List.Basic
import Crossref.Path

/-! Paths as lists of names. Resolving dots leaves names only, and the path of names is left as it is
by everything that tidies paths. -/

set_option autoImplicit false

namespace Crossref.Path

/-- What a path leads to by its own text: a component that neither stays nor leads back. -/
structure IsName (name : Text) : Prop where
  nonempty : name ≠ []
  noDot : name ≠ "."
  noDots : name ≠ ".."
  noSlash : '/' ∉ name

theorem isName_iff {name : Text} :
    IsName name ↔ name ≠ [] ∧ name ≠ "." ∧ name ≠ ".." ∧ '/' ∉ name :=
  ⟨fun isName => ⟨isName.nonempty, isName.noDot, isName.noDots, isName.noSlash⟩,
    fun ⟨nonempty, noDot, noDots, noSlash⟩ => ⟨nonempty, noDot, noDots, noSlash⟩⟩

instance (name : Text) : Decidable (IsName name) := decidable_of_iff _ isName_iff.symm

/-- Names that no path spells in two ways: there is no backslash in them. -/
def Plain (names : List Text) : Prop := ∀ name ∈ names, IsName name ∧ '\\' ∉ name

instance (names : List Text) : Decidable (Plain names) :=
  inferInstanceAs (Decidable (∀ name ∈ names, IsName name ∧ '\\' ∉ name))

theorem Plain.append {front rest : List Text} (plain : Plain front) (restPlain : Plain rest) :
    Plain (front ++ rest) := by
  intro name mem
  rcases List.mem_append.mp mem with before | behind
  · exact plain name before
  · exact restPlain name behind

theorem Plain.of_append {front rest : List Text} (plain : Plain (front ++ rest)) : Plain front :=
  fun name mem => plain name (List.mem_append_left _ mem)

theorem Plain.concat {names : List Text} (plain : Plain names) {name : Text} (isName : IsName name)
    (noBackslash : '\\' ∉ name) : Plain (names ++ [name]) :=
  plain.append (List.forall_mem_singleton.mpr ⟨isName, noBackslash⟩)

theorem Plain.of_concat {names : List Text} {name : Text} (plain : Plain (names ++ [name])) :
    Plain names := plain.of_append

theorem notMem_toForwardSlashes (path : Text) : '\\' ∉ toForwardSlashes path := by
  intro present
  obtain ⟨c, _, changed⟩ := List.mem_map.mp present
  split at changed
  · cases changed
  · next other => exact other changed

theorem toForwardSlashes_of_notMem {path : Text} (absent : '\\' ∉ path) :
    toForwardSlashes path = path := by
  have kept : ∀ c ∈ path, (if c = '\\' then '/' else c) = c :=
    fun c mem => if_neg fun (backslash : c = '\\') => absent (backslash ▸ mem)
  rw [toForwardSlashes, List.map_congr_left kept, List.map_id']

theorem toForwardSlashes_append (front back : Text) :
    toForwardSlashes (front ++ back) = toForwardSlashes front ++ toForwardSlashes back :=
  List.map_append

theorem components_append (front back : Text) :
    components (front ++ '/' :: back) = components front ++ components back :=
  List.splitOnP_append_cons front back rfl

theorem components_of_notMem {path : Text} (noSlash : '/' ∉ path) : components path = [path] := by
  refine List.splitOnP_eq_singleton fun c mem => ?_
  exact decide_eq_false fun slash => noSlash (slash ▸ mem)

/-- A component consists of characters of the path, and no slash is among them. -/
theorem mem_of_mem_components {path component : Text} (mem : component ∈ components path) {c : Char}
    (present : c ∈ component) : c ∈ path ∧ c ≠ '/' := by
  induction path generalizing component with
  | nil =>
      rw [components_of_notMem List.not_mem_nil] at mem
      rw [List.mem_singleton.mp mem] at present
      cases present
  | cons first rest ih =>
      obtain ⟨head, tail, split⟩ := List.exists_cons_of_ne_nil
        (List.splitOnP_ne_nil (fun c => decide (c = '/')) rest)
      have inRest : ∀ {piece : Text}, piece ∈ components rest → c ∈ piece →
          c ∈ first :: rest ∧ c ≠ '/' :=
        fun listed held => (ih listed held).imp_left (List.mem_cons_of_mem _)
      unfold components Text.pieces at mem inRest
      rw [List.splitOnP_cons_eq_if_modifyHead] at mem
      rw [split] at mem inRest
      by_cases slash : first = '/'
      · rw [if_pos (decide_eq_true slash)] at mem
        rcases List.mem_cons.mp mem with rfl | behind
        · cases present
        · exact inRest behind present
      · rw [if_neg (by simpa using slash), List.modifyHead_cons] at mem
        rcases List.mem_cons.mp mem with rfl | behind
        · rcases List.mem_cons.mp present with rfl | held
          · exact ⟨List.mem_cons_self, slash⟩
          · exact inRest List.mem_cons_self held
        · exact inRest (List.mem_cons_of_mem _ behind) present

theorem follow_of_stays {above : Bool} {component : Text} (stays : component = [] ∨ component = ".")
    (position : List Text) : follow above position component = position := by
  refine if_pos ?_
  rw [Bool.or_eq_true, decide_eq_true_eq, decide_eq_true_eq]
  exact stays

/-- Two dots leave the nearest name of an absolute position. -/
theorem follow_dots (position : List Text) : follow false position ".." = position.tail := by
  cases position with
  | nil => rfl
  | cons nearest rest =>
      simp only [follow, Bool.and_false, Bool.false_eq_true, if_false]
      rfl

theorem follow_of_isName {above : Bool} {name : Text} (isName : IsName name) (position : List Text) :
    follow above position name = name :: position := by
  simp only [follow, isName.nonempty, isName.noDot, isName.noDots, decide_false, Bool.or_false,
    Bool.false_eq_true, if_false]

theorem reverse_follow_of_isName {above : Bool} {name : Text} (isName : IsName name)
    (position : List Text) :
    (follow above position.reverse name).reverse = position ++ [name] := by
  rw [follow_of_isName isName, List.reverse_cons, List.reverse_reverse]

theorem reverse_follow_dots (front : List Text) (name : Text) :
    (follow false (front ++ [name]).reverse "..").reverse = front := by
  rw [follow_dots, List.tail_reverse, List.reverse_reverse, List.dropLast_concat]

theorem foldl_follow_of_isName {above : Bool} {names : List Text} (named : ∀ name ∈ names, IsName name)
    (position : List Text) : names.foldl (follow above) position = names.reverse ++ position := by
  induction names generalizing position with
  | nil => rfl
  | cons name rest ih =>
      obtain ⟨isName, restNamed⟩ := List.forall_mem_cons.mp named
      rw [List.foldl_cons, follow_of_isName isName, ih restNamed, List.reverse_cons,
        List.append_assoc]
      rfl

theorem resolveDots_of_isName {above : Bool} {names : List Text}
    (named : ∀ name ∈ names, IsName name) : resolveDots above names = names := by
  rw [resolveDots, foldl_follow_of_isName named, List.append_nil, List.reverse_reverse]

theorem resolveDots_concat {above : Bool} (front : List Text) {name : Text} (isName : IsName name) :
    resolveDots above (front ++ [name]) = resolveDots above front ++ [name] := by
  rw [resolveDots, List.foldl_append, List.foldl_cons, List.foldl_nil, follow_of_isName isName,
    List.reverse_cons]
  rfl

/-- A component that is followed leaves a position of names. -/
theorem mem_follow {position : List Text} {component name : Text} (cut : '/' ∉ component)
    (mem : name ∈ follow false position component) :
    name ∈ position ∨ name = component ∧ IsName component := by
  simp only [follow, Bool.and_false, Bool.false_eq_true, if_false] at mem
  split at mem
  · exact .inl mem
  · next moves =>
      split at mem
      · split at mem
        · cases mem
        · exact .inl (List.mem_cons_of_mem _ mem)
      · next noDots =>
          rcases List.mem_cons.mp mem with rfl | behind
          · simp only [Bool.or_eq_true, decide_eq_true_eq, not_or] at moves
            exact .inr ⟨rfl, moves.1, moves.2, noDots, cut⟩
          · exact .inl behind

/-- What is left of components with nothing above them are names, each one of the components. -/
theorem isName_of_mem_resolveDots {path : List Text} (cut : ∀ component ∈ path, '/' ∉ component)
    {name : Text} (mem : name ∈ resolveDots false path) : name ∈ path ∧ IsName name := by
  have kept : ∀ position : List Text, name ∈ path.foldl (follow false) position →
      name ∈ position ∨ name ∈ path ∧ IsName name := by
    clear mem
    intro position mem
    induction path generalizing position with
    | nil => exact .inl mem
    | cons component rest ih =>
        obtain ⟨firstCut, restCut⟩ := List.forall_mem_cons.mp cut
        rcases ih restCut _ mem with stood | ⟨behind, isName⟩
        · rcases mem_follow firstCut stood with before | ⟨rfl, isName⟩
          · exact .inl before
          · exact .inr ⟨List.mem_cons_self, isName⟩
        · exact .inr ⟨List.mem_cons_of_mem _ behind, isName⟩
  rcases kept [] (List.mem_reverse.mp mem) with inEmpty | left
  · cases inEmpty
  · exact left

theorem ofNames_append {front rest : List Text} (frontNonempty : front ≠ [])
    (restNonempty : rest ≠ []) : ofNames (front ++ rest) = ofNames front ++ ofNames rest := by
  have joined : Text.join "/" (front ++ rest) = Text.join "/" front ++ '/' :: Text.join "/" rest := by
    induction front with
    | nil => exact absurd rfl frontNonempty
    | cons first behind ih =>
        cases behind with
        | nil =>
            cases rest with
            | nil => exact absurd rfl restNonempty
            | cons second others => simp [Text.join]
        | cons second others =>
            have step := ih (List.cons_ne_nil _ _)
            simp only [Text.join, List.cons_append, List.intercalate_cons_cons] at step ⊢
            rw [step]
            simp
  rw [ofNames, joined]
  rfl

theorem ofNames_singleton (name : Text) : ofNames [name] = '/' :: name := by
  rw [ofNames, Text.join, List.intercalate_singleton]

theorem ofNames_components (path : Text) : ofNames (components path) = '/' :: path :=
  congrArg (List.cons '/') (List.intercalate_splitOn '/')

theorem ofNames_concat {front : List Text} (nonempty : front ≠ []) (name : Text) :
    ofNames (front ++ [name]) = ofNames front ++ '/' :: name := by
  rw [ofNames_append nonempty (List.cons_ne_nil _ _)]
  simp [ofNames, Text.join]

theorem ends_ofNames_concat (front : List Text) (name : Text) :
    ∃ before, ofNames (front ++ [name]) = before ++ '/' :: name := by
  cases front with
  | nil => exact ⟨[], by simp [ofNames, Text.join]⟩
  | cons first rest => exact ⟨_, ofNames_concat (List.cons_ne_nil _ _) name⟩

theorem components_join {names : List Text} (nonempty : names ≠ []) (cut : ∀ name ∈ names, '/' ∉ name) :
    components (Text.join "/" names) = names :=
  List.splitOn_intercalate '/' cut nonempty

/-- The components of an absolute path without dots are its names behind the empty one. -/
theorem components_ofNames {names : List Text} (nonempty : names ≠ [])
    (cut : ∀ name ∈ names, '/' ∉ name) : components (ofNames names) = [] :: names := by
  have behind := components_append [] (Text.join "/" names)
  rw [List.nil_append, components_of_notMem List.not_mem_nil] at behind
  rw [ofNames, behind, components_join nonempty cut]
  rfl

/-- The path of some names spells no other names. -/
theorem eq_of_ofNames_eq {names others : List Text} (nonempty : names ≠ []) (othersNonempty : others ≠ [])
    (areNames : ∀ name ∈ names, IsName name) (otherNames : ∀ name ∈ others, IsName name)
    (same : ofNames names = ofNames others) : names = others := by
  have split := congrArg components same
  rw [components_ofNames nonempty fun name mem => (areNames name mem).noSlash,
    components_ofNames othersNonempty fun name mem => (otherNames name mem).noSlash] at split
  exact (List.cons.inj split).2

/-- A path that goes on behind the path of some names leads through them. -/
theorem exists_of_prefix {front names : List Text} (nonempty : front ≠ [])
    (frontCut : ∀ name ∈ front, '/' ∉ name) (cut : ∀ name ∈ names, '/' ∉ name)
    (starts : ofNames front ++ ['/'] <+: ofNames names) :
    ∃ rest, rest ≠ [] ∧ names = front ++ rest := by
  obtain ⟨behind, spelled⟩ := starts
  have namesNonempty : names ≠ [] := by
    rintro rfl
    have lengths := congrArg List.length spelled
    simp [ofNames, Text.join] at lengths
  have split := congrArg components spelled
  rw [List.append_assoc, List.singleton_append, components_append, components_ofNames nonempty frontCut,
    components_ofNames namesNonempty cut, List.cons_append, List.cons.injEq] at split
  exact ⟨components behind, List.splitOnP_ne_nil _ _, split.2.symm⟩

theorem mem_ofNames {names : List Text} {c : Char} (mem : c ∈ ofNames names) :
    c = '/' ∨ ∃ name ∈ names, c ∈ name := by
  rcases List.mem_cons.mp mem with slash | joined
  · exact .inl slash
  · clear mem
    induction names with
    | nil => cases joined
    | cons first rest ih =>
        cases rest with
        | nil =>
            rw [Text.join, List.intercalate_singleton] at joined
            exact .inr ⟨first, List.mem_cons_self, joined⟩
        | cons second behind =>
            rw [Text.join, List.intercalate_cons_cons] at joined
            rcases List.mem_append.mp joined with early | late
            · rcases List.mem_append.mp early with inFirst | slash
              · exact .inr ⟨first, List.mem_cons_self, inFirst⟩
              · exact .inl (List.mem_singleton.mp slash)
            · rcases ih late with slash | ⟨name, listed, present⟩
              · exact .inl slash
              · exact .inr ⟨name, List.mem_cons_of_mem _ listed, present⟩

theorem notMem_ofNames {names : List Text} (plain : Plain names) : '\\' ∉ ofNames names := by
  intro mem
  rcases mem_ofNames mem with slash | ⟨name, listed, backslash⟩
  · cases slash
  · exact (plain name listed).2 backslash

theorem resolveDots_components_ofNames {above : Bool} {names : List Text} (plain : Plain names) :
    resolveDots above (components (ofNames names)) = names := by
  have named : ∀ name ∈ names, IsName name := fun name listed => (plain name listed).1
  cases names with
  | nil => cases above <;> rfl
  | cons first rest =>
      rw [components_ofNames (List.cons_ne_nil _ _) fun name listed => (named name listed).noSlash]
      exact resolveDots_of_isName named

theorem exists_of_isAbsolute {path : Text} (absolute : isAbsolute path) :
    ∃ behind, path = '/' :: behind := by
  cases path with
  | nil => cases absolute
  | cons first behind =>
      have slash : first = '/' := by simpa [isAbsolute] using absolute
      exact ⟨behind, by rw [slash]⟩

theorem absolute_ofNames (cwd : Text) (names : List Text) :
    absolute cwd (ofNames names) = ofNames names := rfl

theorem canonical_ofNames (cwd : Text) {names : List Text} (plain : Plain names) :
    canonical cwd (ofNames names) = ofNames names := by
  rw [canonical, resolve, absolute_ofNames, resolveDots_components_ofNames plain,
    toForwardSlashes_of_notMem (notMem_ofNames plain)]

theorem isAbsolute_canonical (cwd path : Text) : isAbsolute (canonical cwd path) := rfl

theorem normalize_of_isAbsolute {path : Text} (absolute : isAbsolute path)
    (noTrailing : path.getLast? ≠ some '/') :
    normalize path = ofNames (resolveDots false (components path)) := by
  simp only [normalize, absolute, Bool.not_true, if_neg noTrailing, List.append_nil, if_true]
  -- a path without names is the slash alone
  split
  · next empty =>
      rw [ofNames, List.isEmpty_iff.mp empty]
      rfl
  · rfl

/-- Joining a path to an absolute one follows its components from where the absolute one leads. -/
theorem join_relative {path relative : Text} (absolute : isAbsolute path) (nonempty : relative ≠ [])
    (noTrailing : relative.getLast? ≠ some '/') :
    join [path, relative] = ofNames (resolveDots false (components path ++ components relative)) := by
  obtain ⟨behind, rfl⟩ := exists_of_isAbsolute absolute
  have joined : Text.join "/" (['/' :: behind, relative].filter fun part => !part.isEmpty) =
      '/' :: behind ++ '/' :: relative := by
    cases relative with
    | nil => exact absurd rfl nonempty
    | cons first rest => simp [Text.join]
  have stillNoTrailing : ('/' :: behind ++ '/' :: relative).getLast? ≠ some '/' := by
    rwa [List.append_cons, List.getLast?_append_of_ne_nil _ nonempty]
  have isRooted : isAbsolute ('/' :: behind ++ '/' :: relative) = true := rfl
  rw [join, joined, normalize_of_isAbsolute isRooted stillNoTrailing, components_append]
  rfl

theorem join_component {path component : Text} (absolute : isAbsolute path) (nonempty : component ≠ [])
    (noSlash : '/' ∉ component) :
    join [path, component] = ofNames (resolveDots false (components path ++ [component])) := by
  have noTrailing : component.getLast? ≠ some '/' := fun ends => noSlash (List.mem_of_getLast? ends)
  rw [join_relative absolute nonempty noTrailing, components_of_notMem noSlash]

/-- Joining a name to an absolute path leads to the names of the path and then to this name. -/
theorem join_child {path name : Text} (absolute : isAbsolute path) (isName : IsName name) :
    join [path, name] = ofNames (resolveDots false (components path) ++ [name]) := by
  rw [join_component absolute isName.nonempty isName.noSlash, resolveDots_concat _ isName]

/-- Joining a component to the path of plain names follows it from there. -/
theorem joinParts_ofNames {position : List Text} (plain : Plain position) {component : Text}
    (nonempty : component ≠ []) (noSlash : '/' ∉ component) (noBackslash : '\\' ∉ component) :
    joinParts [ofNames position, component] =
      ofNames (follow false position.reverse component).reverse := by
  have followed : (components (ofNames position)).foldl (follow false) [] = position.reverse :=
    List.reverse_eq_iff.mp (resolveDots_components_ofNames plain)
  have stillPlain : Plain (follow false position.reverse component).reverse := by
    intro name mem
    rcases mem_follow noSlash (List.mem_reverse.mp mem) with stood | ⟨rfl, isName⟩
    · exact plain name (List.mem_reverse.mp stood)
    · exact ⟨isName, noBackslash⟩
  have joined : join [ofNames position, component] =
      ofNames (follow false position.reverse component).reverse := by
    rw [join_component rfl nonempty noSlash, resolveDots, List.foldl_append, followed]
    rfl
  rw [joinParts, joined, toForwardSlashes_of_notMem (notMem_ofNames stillPlain)]

theorem getLast?_ofNames_ne {names : List Text} (nonempty : names ≠ [])
    (named : ∀ name ∈ names, IsName name) : (ofNames names).getLast? ≠ some '/' := by
  intro ends
  obtain ⟨front, name, rfl⟩ := (List.eq_nil_or_concat' names).resolve_left nonempty
  obtain ⟨before, spelled⟩ := ends_ofNames_concat front name
  have isName := named name List.mem_concat_self
  rw [spelled, List.append_cons, List.getLast?_append_of_ne_nil _ isName.nonempty] at ends
  exact isName.noSlash (List.mem_of_getLast? ends)

theorem joinParts_empty {position : List Text} (plain : Plain position) :
    joinParts [ofNames position, []] = ofNames position := by
  have joined : join [ofNames position, []] = normalize (ofNames position) := by
    simp [join, Text.join, ofNames]
  rw [joinParts, joined]
  by_cases empty : position = []
  · rw [empty]
    rfl
  · have noTrailing := getLast?_ofNames_ne empty fun name mem => (plain name mem).1
    rw [normalize_of_isAbsolute rfl noTrailing, resolveDots_components_ofNames plain,
      toForwardSlashes_of_notMem (notMem_ofNames plain)]

theorem isAbsolute_joinParts {path name : Text} (absolute : isAbsolute path) (isName : IsName name) :
    isAbsolute (joinParts [path, name]) := by
  rw [joinParts, join_child absolute isName]
  rfl

theorem mem_of_mem_base {path : Text} {c : Char} (mem : c ∈ base path) : c ∈ path ∧ c ≠ '/' := by
  have taken := List.mem_reverse.mp mem
  have kept := (List.dropWhile_sublist _).subset ((List.takeWhile_sublist _).subset taken)
  exact ⟨List.mem_reverse.mp kept, of_decide_eq_true (List.all_eq_true.mp List.all_takeWhile c taken)⟩

theorem reverse_dropWhile_slash {name : Text} (isName : IsName name) (before : Text) :
    (before ++ '/' :: name).reverse.dropWhile (· = '/') = name.reverse ++ '/' :: before.reverse := by
  have reversed : (before ++ '/' :: name).reverse = name.reverse ++ '/' :: before.reverse := by simp
  rw [reversed]
  cases last : name.reverse with
  | nil => exact absurd (List.reverse_eq_nil_iff.mp last) isName.nonempty
  | cons first rest =>
      have other : first ≠ '/' := by
        rintro rfl
        exact isName.noSlash (List.mem_reverse.mp (last ▸ List.mem_cons_self))
      simp [other]

theorem ne_slash_of_mem_reverse {name : Text} (isName : IsName name) {c : Char}
    (mem : c ∈ name.reverse) : c ≠ '/' := by
  rintro rfl
  exact isName.noSlash (List.mem_reverse.mp mem)

theorem base_ofNames_concat (front : List Text) {name : Text} (isName : IsName name) :
    base (ofNames (front ++ [name])) = name := by
  obtain ⟨before, ends⟩ := ends_ofNames_concat front name
  have taken : (name.reverse ++ '/' :: before.reverse).takeWhile (· ≠ '/') = name.reverse := by
    rw [List.takeWhile_append_of_pos fun c mem => decide_eq_true (ne_slash_of_mem_reverse isName mem)]
    simp
  rw [base, ends, reverse_dropWhile_slash isName, taken, List.reverse_reverse]

theorem directory_ofNames_concat {front : List Text} {name : Text}
    (named : ∀ other ∈ front ++ [name], IsName other) :
    directory (ofNames (front ++ [name])) = ofNames front := by
  have isName := named name List.mem_concat_self
  have dropped : ∀ before : Text,
      (((before ++ '/' :: name).reverse.dropWhile (· = '/')).dropWhile fun c => !decide (c = '/')) =
        '/' :: before.reverse := by
    intro before
    rw [reverse_dropWhile_slash isName, List.dropWhile_append_of_pos fun c mem => by
      simp [ne_slash_of_mem_reverse isName mem]]
    simp
  cases front with
  | nil =>
      have alone : ofNames ([] ++ [name]) = [] ++ '/' :: name := by simp [ofNames, Text.join]
      simp only [directory, alone, dropped]
      rfl
  | cons first rest =>
      have long : 1 < (ofNames (first :: rest)).reverse.length := by
        have firstLength := List.length_pos_iff.mpr (named first List.mem_cons_self).nonempty
        cases rest with
        | nil => simpa [ofNames, Text.join] using firstLength
        | cons second behind =>
            simp only [ofNames, Text.join, List.intercalate_cons_cons, List.length_reverse,
              List.length_cons, List.length_append]
            omega
      simp only [directory, ofNames_concat (List.cons_ne_nil first rest), dropped]
      match reversed : (ofNames (first :: rest)).reverse, long with
      | last :: other :: behind, _ => rw [← List.reverse_reverse (ofNames _), reversed]

theorem parent?_ofNames_concat (cwd : Text) {front : List Text} {name : Text}
    (plain : Plain (front ++ [name])) :
    parent? cwd (ofNames (front ++ [name])) = some (ofNames front) := by
  have frontPlain := plain.of_concat
  have differs : ofNames front ≠ ofNames (front ++ [name]) := by
    intro same
    have names := congrArg (fun path => resolveDots false (components path)) same
    simp only [resolveDots_components_ofNames frontPlain, resolveDots_components_ofNames plain] at names
    exact List.concat_ne_nil name [] (List.self_eq_append_right.mp names)
  have named : ∀ other ∈ front ++ [name], IsName other := fun other mem => (plain other mem).1
  rw [parent?, canonical_ofNames cwd plain, directory_ofNames_concat named,
    canonical_ofNames cwd frontPlain]
  exact if_neg differs

end Crossref.Path

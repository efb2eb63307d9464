import Mathlib.Data.List.Nodup
import Crossref.Declaration.Index
import Crossref.Proofs.Text.Units

/-! Catalogues that file values under their own names. Under a key there are the values of that name
in their order, and this is also what a search of the whole catalogue finds. -/

set_option autoImplicit false

namespace Crossref

namespace Catalogue

variable {α : Type}

/-- The catalogue of values that are added in their order, each under its own name. -/
def filed (nameOf : α → Text) (values : List α) : Catalogue α :=
  values.foldl (fun catalogue value => catalogue.add (nameOf value) value) empty

theorem get_filed (nameOf : α → Text) (values : List α) (key : Text) :
    (filed nameOf values).get key = values.filter fun value => nameOf value = key := by
  have folded : ∀ catalogue : Catalogue α,
      (values.foldl (fun catalogue value => catalogue.add (nameOf value) value) catalogue).get key =
        catalogue.get key ++ values.filter fun value => nameOf value = key := by
    induction values with
    | nil => simp
    | cons value rest ih =>
        intro catalogue
        rw [List.foldl_cons, ih, get_add, List.filter_cons]
        by_cases own : nameOf value = key
        · simp [own]
        · simp [own, Ne.symm own]
  rw [filed, folded, get_empty, List.nil_append]

theorem map_fst_insert (key : Text) (value : α) (groups : List (Text × List α)) :
    (insert key value groups).map (·.1) =
      if key ∈ groups.map (·.1) then groups.map (·.1) else groups.map (·.1) ++ [key] := by
  induction groups with
  | nil => rfl
  | cons group rest ih =>
      obtain ⟨present, values⟩ := group
      rw [insert]
      by_cases same : present = key
      · simp [same]
      · rw [if_neg same, List.map_cons, ih]
        by_cases later : key ∈ rest.map (·.1)
        · simp only [List.map_cons, if_pos later, if_pos (List.mem_cons_of_mem _ later)]
        · have absent : key ∉ present :: rest.map (·.1) := by
            rw [List.mem_cons, not_or]
            exact ⟨Ne.symm same, later⟩
          simp only [List.map_cons, if_neg later, if_neg absent, List.cons_append]

theorem nodup_add {catalogue : Catalogue α} (distinct : (catalogue.groups.map (·.1)).Nodup)
    (key : Text) (value : α) : ((catalogue.add key value).groups.map (·.1)).Nodup := by
  rw [add, map_fst_insert]
  split
  · exact distinct
  · next absent => exact List.nodup_append.mpr ⟨distinct, List.nodup_singleton key, by
      rintro present mem other added rfl
      exact absent (List.mem_singleton.mp added ▸ mem)⟩

theorem nodup_keys_filed (nameOf : α → Text) (values : List α) : (filed nameOf values).keys.Nodup := by
  have folded : ∀ catalogue : Catalogue α, (catalogue.groups.map (·.1)).Nodup →
      ((values.foldl (fun catalogue value => catalogue.add (nameOf value) value) catalogue).groups.map
        (·.1)).Nodup := by
    induction values with
    | nil => exact fun _ distinct => distinct
    | cons value rest ih => exact fun _ distinct => ih _ (nodup_add distinct _ _)
  exact (List.mergeSort_perm _ _).nodup_iff.mpr (folded empty List.nodup_nil)

theorem mem_map_fst_add {catalogue : Catalogue α} {key other : Text} {value : α} :
    key ∈ (catalogue.add other value).groups.map (·.1) ↔
      key ∈ catalogue.groups.map (·.1) ∨ other = key := by
  rw [add, map_fst_insert]
  split
  · next present =>
      constructor
      · exact .inl
      · rintro (listed | rfl)
        · exact listed
        · exact present
  · rw [List.mem_append, List.mem_singleton, eq_comm]

/-- The keys are the names of the values that were added. -/
theorem mem_keys_filed {nameOf : α → Text} {values : List α} {key : Text} :
    key ∈ (filed nameOf values).keys ↔ ∃ value ∈ values, nameOf value = key := by
  have folded : ∀ catalogue : Catalogue α,
      key ∈ (values.foldl (fun catalogue value => catalogue.add (nameOf value) value) catalogue).groups.map
        (·.1) ↔ key ∈ catalogue.groups.map (·.1) ∨ ∃ value ∈ values, nameOf value = key := by
    induction values with
    | nil => simp
    | cons value rest ih =>
        intro catalogue
        rw [List.foldl_cons, ih, mem_map_fst_add, or_assoc, List.exists_mem_cons_iff]
  rw [keys, Text.sort, List.mem_mergeSort, filed, folded]
  simp [empty]

/-- The keys ascend strictly. -/
theorem pairwise_keys_filed (nameOf : α → Text) (values : List α) :
    (filed nameOf values).keys.Pairwise fun first second => Text.le first second ∧ first ≠ second :=
  (Text.pairwise_sort _).and (nodup_keys_filed nameOf values)

/-- A key that has values is one of the keys. -/
theorem mem_keys_of_get {catalogue : Catalogue α} {key : Text} (filled : catalogue.get key ≠ []) :
    key ∈ catalogue.keys := by
  rw [get] at filled
  cases found : catalogue.groups.find? fun group => group.1 = key with
  | none => simp [found] at filled
  | some group =>
      have same : group.1 = key := by simpa using List.find?_some found
      rw [keys, Text.sort, List.mem_mergeSort]
      exact List.mem_map.mpr ⟨group, List.mem_of_find?_eq_some found, same⟩

/-- Of several lists, each under a key of its own, only the list under one key is left. -/
theorem flatMap_ite_of_nodup {keys : List Text} (distinct : keys.Nodup) (key : Text) (values : List α) :
    (keys.flatMap fun other => if other = key then values else []) =
      if key ∈ keys then values else [] := by
  induction keys with
  | nil => rfl
  | cons first rest ih =>
      obtain ⟨fresh, restDistinct⟩ := List.nodup_cons.mp distinct
      rw [List.flatMap_cons, ih restDistinct]
      by_cases same : first = key
      · subst same
        simp [fresh]
      · simp [same, Ne.symm same]

/-- All values of one name are found together under this name. -/
theorem filter_values_filed (nameOf : α → Text) (values : List α) (key : Text) :
    ((filed nameOf values).values.filter fun value => nameOf value = key) =
      (filed nameOf values).get key := by
  have own : ∀ other, (((filed nameOf values).get other).filter fun value => nameOf value = key) =
      if other = key then (filed nameOf values).get key else [] := by
    intro other
    rw [get_filed, get_filed, List.filter_filter]
    by_cases same : other = key
    · rw [if_pos same, same]
      simp
    · rw [if_neg same]
      refine List.filter_eq_nil_iff.mpr fun value _ both => same ?_
      simp only [Bool.and_eq_true, decide_eq_true_eq] at both
      exact both.2.symm.trans both.1
  rw [Catalogue.values, List.filter_flatMap, funext own,
    flatMap_ite_of_nodup (nodup_keys_filed nameOf values)]
  split
  · rfl
  · next absent => exact (not_not.mp fun filled => absent (mem_keys_of_get filled)).symm

/-- No value is lost, and none is there more often than it was added. -/
theorem perm_values_filed [DecidableEq α] (nameOf : α → Text) (values : List α) :
    (filed nameOf values).values.Perm values := by
  refine List.perm_iff_count.mpr fun value => ?_
  let named (other : α) : Bool := nameOf other = nameOf value
  have own : named value := decide_eq_true rfl
  calc (filed nameOf values).values.count value
      = ((filed nameOf values).values.filter named).count value := (List.count_filter own).symm
    _ = (values.filter named).count value := by rw [filter_values_filed, get_filed]
    _ = values.count value := List.count_filter own

end Catalogue

namespace Declared

def attribute? : Declared → Option IndexedAttribute
  | .attribute entry => some entry
  | .anchor _ => none

def anchor? : Declared → Option IndexedId
  | .attribute _ => none
  | .anchor found => some found

end Declared

namespace Index

/-- The index files the attributes and the ids of all documents in the order of the documents. -/
theorem ofSources_eq (sources : List Source) :
    ofSources sources =
      ⟨.filed (·.name) ((sources.flatMap Declared.ofSource).filterMap Declared.attribute?),
        .filed (·.id) ((sources.flatMap Declared.ofSource).filterMap Declared.anchor?)⟩ := by
  have folded : ∀ (declared : List Declared) (index : Index),
      declared.foldl add index =
        ⟨(declared.filterMap Declared.attribute?).foldl
            (fun catalogue entry => catalogue.add entry.name entry) index.attributes,
          (declared.filterMap Declared.anchor?).foldl
            (fun catalogue found => catalogue.add found.id found) index.ids⟩ := by
    intro declared
    induction declared with
    | nil => exact fun _ => rfl
    | cons first rest ih =>
        intro index
        rw [List.foldl_cons, ih]
        cases first <;> rfl
  exact folded _ empty

theorem attributes_ofSources (sources : List Source) :
    (ofSources sources).attributes =
      .filed (·.name) ((sources.flatMap Declared.ofSource).filterMap Declared.attribute?) := by
  rw [ofSources_eq]

theorem ids_ofSources (sources : List Source) :
    (ofSources sources).ids =
      .filed (·.id) ((sources.flatMap Declared.ofSource).filterMap Declared.anchor?) := by
  rw [ofSources_eq]

end Index

end Crossref

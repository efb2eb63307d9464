import Crossref.Proofs.Catalogue
import Crossref.Proofs.Declaration.Line

/-! The index of several documents. It unites what each of them declares, in the order of the documents, and
leaves nothing out. -/

set_option autoImplicit false

namespace Crossref

theorem Declared.file_of_mem_ofSource {source : Source} {declared : Declared} (mem : declared ∈ ofSource source) :
    declared.location.file = source.path := by
  obtain ⟨path, text⟩ := source
  rw [ofSource_eq_ofLines] at mem
  obtain ⟨numbered, _, inLine⟩ := List.mem_flatMap.mp mem
  rw [location_of_mem_ofLine inLine]

namespace Catalogue

variable {α : Type}

/-- What documents declare of one kind, in their order. -/
def declarations (select : Declared → Option α) (sources : List Source) : List α :=
  (sources.flatMap Declared.ofSource).filterMap select

/-- A catalogue holds what documents declare of one kind, under the names of the declarations. -/
structure Unites (select : Declared → Option α) (nameOf : α → Text) (sources : List Source)
    (catalogue : Catalogue α) : Prop where
  get_eq : ∀ key, catalogue.get key =
    sources.flatMap fun source => ((Declared.ofSource source).filterMap select).filter fun value => nameOf value = key
  ascending : catalogue.keys.Pairwise fun first second => Text.le first second ∧ first ≠ second
  mem_keys_iff : ∀ key, key ∈ catalogue.keys ↔ ∃ value ∈ declarations select sources, nameOf value = key
  values_eq : catalogue.values = catalogue.keys.flatMap catalogue.get
  perm : catalogue.values.Perm (declarations select sources)
  origin : ∀ key, ∀ value ∈ catalogue.get key, nameOf value = key ∧
    ∃ source ∈ sources, ∃ declared ∈ Declared.ofSource source,
      select declared = some value ∧ declared.location.file = source.path

theorem get_filed_append (nameOf : α → Text) (values more : List α) (key : Text) :
    (filed nameOf (values ++ more)).get key = (filed nameOf values).get key ++ (filed nameOf more).get key := by
  simp only [get_filed, List.filter_append]

theorem unites_filed [DecidableEq α] (select : Declared → Option α) (nameOf : α → Text) (sources : List Source) :
    (filed nameOf (declarations select sources)).Unites select nameOf sources where
  get_eq := by
    intro key
    rw [get_filed, declarations, List.filterMap_flatMap, List.filter_flatMap]
  ascending := pairwise_keys_filed _ _
  mem_keys_iff := fun _ => mem_keys_filed
  values_eq := rfl
  perm := perm_values_filed _ _
  origin := by
    intro key value mem
    rw [get_filed, List.mem_filter] at mem
    obtain ⟨declared, inSources, selected⟩ := List.mem_filterMap.mp mem.1
    obtain ⟨source, listed, inSource⟩ := List.mem_flatMap.mp inSources
    exact ⟨of_decide_eq_true mem.2, source, listed, declared, inSource, selected,
      Declared.file_of_mem_ofSource inSource⟩

end Catalogue

namespace Index

/-- The index of documents and of more documents behind them unites what all of them declare. Under each key it
has what it has for the first ones and then what it has for the others. -/
theorem unites_documents_in_order (sources more : List Source) :
    let index := ofSources (sources ++ more)
    index.attributes.Unites Declared.attribute? (·.name) (sources ++ more) ∧
    index.ids.Unites Declared.anchor? (·.id) (sources ++ more) ∧
    ∀ key,
      index.attributes.get key = (ofSources sources).attributes.get key ++ (ofSources more).attributes.get key ∧
      index.ids.get key = (ofSources sources).ids.get key ++ (ofSources more).ids.get key := by
  intro index
  refine ⟨?_, ?_, fun key => ⟨?_, ?_⟩⟩
  · rw [attributes_ofSources]
    exact Catalogue.unites_filed _ _ _
  · rw [ids_ofSources]
    exact Catalogue.unites_filed _ _ _
  · simp only [index, attributes_ofSources, List.flatMap_append, List.filterMap_append, Catalogue.get_filed_append]
  · simp only [index, ids_ofSources, List.flatMap_append, List.filterMap_append, Catalogue.get_filed_append]

end Index

end Crossref

import Crossref.Text.Units

/-! Catalogues: a list of values under each key, in the order in which they were added. -/

set_option autoImplicit false

namespace Crossref

structure Catalogue (α : Type) where
  groups : List (Text × List α)

namespace Catalogue

variable {α : Type}

def empty : Catalogue α := ⟨[]⟩

def insert (key : Text) (value : α) : List (Text × List α) → List (Text × List α)
  | [] => [(key, [value])]
  | (present, values) :: rest =>
    if present = key then (present, values ++ [value]) :: rest
    else (present, values) :: insert key value rest

def add (catalogue : Catalogue α) (key : Text) (value : α) : Catalogue α :=
  ⟨insert key value catalogue.groups⟩

/-- The values under a key; a key that was never added has none. -/
def get (catalogue : Catalogue α) (key : Text) : List α :=
  ((catalogue.groups.find? fun group => group.1 = key).map (·.2)).getD []

/-- The keys in ascending order. -/
def keys (catalogue : Catalogue α) : List Text := Text.sort (catalogue.groups.map (·.1))

/-- Every value, by ascending key. -/
def values (catalogue : Catalogue α) : List α := catalogue.keys.flatMap catalogue.get

theorem get_empty (key : Text) : (empty : Catalogue α).get key = [] := rfl

/-- Adding a value changes the list of its own key only. -/
theorem get_add (catalogue : Catalogue α) (key other : Text) (value : α) :
    (catalogue.add key value).get other =
      if other = key then catalogue.get other ++ [value] else catalogue.get other := by
  obtain ⟨groups⟩ := catalogue
  simp only [add, get]
  induction groups with
  | nil => by_cases same : key = other <;> simp [insert, same, eq_comm]
  | cons group rest ih =>
    obtain ⟨present, values⟩ := group
    by_cases same : present = key <;> by_cases found : present = other <;>
      by_cases asked : other = key <;> simp_all [insert]

end Catalogue

end Crossref

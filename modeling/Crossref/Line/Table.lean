import Crossref.Text.Units

/-! Line numbers of offsets. A table of the offsets at which lines start is searched by halving. -/

set_option autoImplicit false

namespace Crossref

/-- The offsets at which the lines of a text start, in ascending order. -/
structure LineTable where
  starts : Array Nat
  starts_nonempty : 0 < starts.size

namespace LineTable

/-- The offsets behind the line feeds of a text that begins at `offset`. -/
def startsAfter (offset : Nat) : Text → List Nat
  | [] => []
  | c :: rest =>
    let next := offset + (Text.charUnits c).length
    if c = '\n' then next :: startsAfter next rest else startsAfter next rest

def ofText (text : Text) : LineTable :=
  ⟨(0 :: startsAfter 0 text).toArray, by simp⟩

/-- The last index between `low` and `high` whose line starts at or before `offset`, and `low` if
there is none. -/
def search (starts : Array Nat) (offset : Int) (low high : Nat) (bound : high < starts.size) : Nat :=
  if lower : low < high then
    let middle := (low + high + 1) / 2
    have inside : middle < starts.size := by omega
    if (starts[middle] : Int) ≤ offset then search starts offset middle high bound
    else search starts offset low (middle - 1) (by omega)
  else low
termination_by high - low

/-- The number of the line that holds an offset, counting from one. An offset before the text lies
on the first line and one behind it on the last. -/
def lineOf (table : LineTable) (offset : Int) : Nat :=
  search table.starts offset 0 (table.starts.size - 1)
    (by have := table.starts_nonempty; omega) + 1

end LineTable

end Crossref

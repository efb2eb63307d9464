/-! Delaying an action until its calls pause. Each call puts the run off, so that a burst of calls
leads to one run, for the last of them. -/

set_option autoImplicit false

namespace Crossref

/-- A clock that only moves forward, and the run that is put off: its time and its argument. -/
structure Debounce (α : Type) where
  now : Nat
  pending : Option (Nat × α)
deriving DecidableEq

namespace Debounce

variable {α : Type}

/-- The clock at zero, with nothing put off. -/
def start : Debounce α := ⟨0, none⟩

/-- The longest time that a timer can be set for, in milliseconds. -/
def longestWait : Nat := 2147483647

/-- How long a timer waits that is set for the time `wait`. If that is more than it can be set for, or nothing, it
waits for one millisecond. -/
def delay (wait : Nat) : Nat := if 0 < wait ∧ wait ≤ longestWait then wait else 1

theorem delay_pos (wait : Nat) : 0 < delay wait := by
  unfold delay
  split
  · next held => exact held.1
  · exact Nat.one_pos

theorem delay_of_le {wait : Nat} (positive : 0 < wait) (held : wait ≤ longestWait) : delay wait = wait :=
  if_pos ⟨positive, held⟩

theorem delay_of_lt {wait : Nat} (longer : longestWait < wait) : delay wait = 1 :=
  if_neg fun held => Nat.not_lt.mpr held.2 longer

/-- Puts a run off until a time. It takes the place of a run that was put off before. -/
def putOff (time : Nat) (argument : α) (state : Debounce α) : Debounce α :=
  { state with pending := some (time, argument) }

/-- Puts a run off for the time `wait`, as far as a timer can be set for it. -/
def call (wait : Nat) (argument : α) (state : Debounce α) : Debounce α :=
  state.putOff (state.now + delay wait) argument

/-- Moves the clock forward, and gives the run whose time was reached, if there is one. -/
def advance (duration : Nat) (state : Debounce α) : Option (Nat × α) × Debounce α :=
  let now := state.now + duration
  match state.pending with
  | none => (none, ⟨now, none⟩)
  | some run => if run.1 ≤ now then (some run, ⟨now, none⟩) else (none, ⟨now, some run⟩)

end Debounce

end Crossref

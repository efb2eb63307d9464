import Mathlib.Order.Basic
import Crossref.Debounce

/-! Runs of a debounced action. A call leads to a run exactly if the clock reaches the end of its wait
before another call comes, and the runs come one after the other. -/

set_option autoImplicit false

namespace Crossref.Debounce

/-- What happens to a debounced action: it is called, or time goes by. -/
inductive Move (α : Type) where
  | call (argument : α)
  | elapse (duration : Nat)

variable {α : Type}

section

variable (wait : Nat)

def step (state : Debounce α) : Move α → Debounce α
  | .call argument => state.call wait argument
  | .elapse duration => (state.advance duration).2

def behind (state : Debounce α) (moves : List (Move α)) : Debounce α := moves.foldl (step wait) state

/-- The calls with their times. -/
def calls (state : Debounce α) : List (Move α) → List (Nat × α)
  | [] => []
  | .call argument :: rest => (state.now, argument) :: calls (state.call wait argument) rest
  | .elapse duration :: rest => calls (state.advance duration).2 rest

/-- The runs with their times. -/
def runs (state : Debounce α) : List (Move α) → List (Nat × α)
  | [] => []
  | .call argument :: rest => runs (state.call wait argument) rest
  | .elapse duration :: rest =>
    (state.advance duration).1.toList ++ runs (state.advance duration).2 rest

end

/-- A run that is put off is still to come. -/
def IsAhead (state : Debounce α) : Prop := ∀ run ∈ state.pending, state.now < run.1

/-- A time is reached by a clock that shows `clock` in the end, and before any of the calls. -/
def IsReached (time clock : Nat) (calls : List (Nat × α)) : Prop :=
  time ≤ clock ∧ ∀ call ∈ calls, time ≤ call.1

variable {wait : Nat} {state : Debounce α} {moves : List (Move α)}

theorem isAhead_of_pending_eq_none (rests : state.pending = none) : state.IsAhead := by
  intro run pending
  rw [rests] at pending
  exact absurd pending (Option.not_mem_none run)

theorem behind_elapse (duration : Nat) (rest : List (Move α)) :
    behind wait state (.elapse duration :: rest) = behind wait (state.advance duration).2 rest := rfl

theorem isAhead_call (wait : Nat) (argument : α) : (state.call wait argument).IsAhead := by
  rintro run pending
  cases pending
  exact Nat.lt_add_of_pos_right (delay_pos wait)

/-- Time that goes by reaches the run that is put off, or leaves it put off. -/
theorem advance_cases (duration : Nat) (state : Debounce α) :
    (∃ run ∈ state.pending, run.1 ≤ state.now + duration ∧
      state.advance duration = (some run, ⟨state.now + duration, none⟩)) ∨
    ((∀ run ∈ state.pending, state.now + duration < run.1) ∧
      state.advance duration = (none, ⟨state.now + duration, state.pending⟩)) := by
  obtain ⟨now, pending⟩ := state
  cases pending with
  | none => exact .inr ⟨fun run none => absurd none (Option.not_mem_none run), rfl⟩
  | some run =>
      by_cases reached : run.1 ≤ now + duration
      · exact .inl ⟨run, rfl, reached, if_pos reached⟩
      · exact .inr ⟨fun other same => Option.some.inj same ▸ Nat.not_le.mp reached, if_neg reached⟩

theorem now_advance (duration : Nat) (state : Debounce α) :
    (state.advance duration).2.now = state.now + duration := by
  rcases advance_cases duration state with ⟨_, _, _, advanced⟩ | ⟨_, advanced⟩ <;> rw [advanced]

theorem isAhead_advance (duration : Nat) : (state.advance duration).2.IsAhead := by
  rcases advance_cases duration state with ⟨_, _, _, advanced⟩ | ⟨ahead, advanced⟩
  · rw [advanced]
    exact isAhead_of_pending_eq_none rfl
  · rw [advanced]
    exact ahead

theorem isAhead_behind (ahead : state.IsAhead) : (behind wait state moves).IsAhead := by
  induction moves generalizing state with
  | nil => exact ahead
  | cons move rest ih =>
      cases move with
      | call argument => exact ih (isAhead_call wait argument)
      | elapse duration => exact ih (isAhead_advance duration)

theorem now_le_behind (moves : List (Move α)) (state : Debounce α) :
    state.now ≤ (behind wait state moves).now := by
  induction moves generalizing state with
  | nil => exact Nat.le_refl _
  | cons move rest ih =>
      cases move with
      | call argument => exact ih (state.call wait argument)
      | elapse duration =>
          have later := ih (state.advance duration).2
          rw [now_advance] at later
          exact Nat.le_of_add_right_le later

theorem now_le_of_mem_calls {call : Nat × α} (mem : call ∈ calls wait state moves) : state.now ≤ call.1 := by
  induction moves generalizing state with
  | nil => cases mem
  | cons move rest ih =>
      cases move with
      | call argument =>
          rcases List.mem_cons.mp mem with rfl | later
          · exact Nat.le_refl _
          · exact (ih later : (state.call wait argument).now ≤ call.1)
      | elapse duration =>
          have later := ih mem
          rw [now_advance] at later
          exact Nat.le_of_add_right_le later

theorem le_now_of_mem_calls {call : Nat × α} (mem : call ∈ calls wait state moves) :
    call.1 ≤ (behind wait state moves).now := by
  induction moves generalizing state with
  | nil => cases mem
  | cons move rest ih =>
      cases move with
      | call argument =>
          rcases List.mem_cons.mp mem with rfl | later
          · exact now_le_behind rest (state.call wait argument)
          · exact ih later
      | elapse duration => exact ih mem

/-- What the clock has passed already is reached. -/
theorem isReached_of_le {time : Nat} (passed : time ≤ state.now) (wait : Nat) (moves : List (Move α)) :
    IsReached time (behind wait state moves).now (calls wait state moves) :=
  ⟨Nat.le_trans passed (now_le_behind moves state),
    fun _ mem => Nat.le_trans passed (now_le_of_mem_calls mem)⟩

/-- The run that is put off comes if its time is reached before the calls. The other runs are those of the
calls whose wait ends before the calls behind them. -/
theorem mem_runs_iff (ahead : state.IsAhead) {run : Nat × α} :
    run ∈ runs wait state moves ↔
      (run ∈ state.pending ∧ IsReached run.1 (behind wait state moves).now (calls wait state moves)) ∨
      ∃ front time back, calls wait state moves = front ++ (time, run.2) :: back ∧
        run.1 = time + delay wait ∧ IsReached run.1 (behind wait state moves).now back := by
  induction moves generalizing state with
  | nil =>
      constructor
      · exact fun mem => absurd mem List.not_mem_nil
      · rintro (⟨pending, reached, _⟩ | ⟨front, _, _, same, _⟩)
        · exact absurd reached (Nat.not_le.mpr (ahead run pending))
        · simp [calls] at same
  | cons move rest ih =>
      cases move with
      | call argument =>
          rw [runs, calls, ih (isAhead_call wait argument)]
          constructor
          · rintro (⟨pending, reached⟩ | ⟨front, time, back, same, ends⟩)
            · cases pending
              exact .inr ⟨[], state.now, _, rfl, rfl, reached⟩
            · exact .inr ⟨_ :: front, time, back, congrArg (_ :: ·) same, ends⟩
          · rintro (⟨pending, _, before⟩ | ⟨front, time, back, same, ends, reached⟩)
            · exact absurd (before _ List.mem_cons_self) (Nat.not_le.mpr (ahead run pending))
            · cases front with
              | nil =>
                  obtain ⟨first, rfl⟩ := List.cons.inj same
                  cases first
                  exact .inl ⟨congrArg some (Prod.ext ends.symm rfl), reached⟩
              | cons first front =>
                  exact .inr ⟨front, time, back, (List.cons.inj same).2, ends, reached⟩
      | elapse duration =>
          have goesOn := ih (isAhead_advance duration : (state.advance duration).2.IsAhead)
          rw [runs, calls, behind_elapse, List.mem_append, goesOn]
          rcases advance_cases duration state with ⟨first, pending, early, advanced⟩ | ⟨_, advanced⟩
          · have reached := isReached_of_le (early.trans_eq (now_advance duration state).symm) wait rest
            rw [advanced] at reached ⊢
            constructor
            · rintro (mem | (⟨none, _⟩ | later))
              · cases Option.mem_toList.mp mem
                exact .inl ⟨pending, reached⟩
              · exact absurd none (Option.not_mem_none run)
              · exact .inr later
            · rintro (⟨again, _⟩ | later)
              · cases Option.mem_unique pending again
                exact .inl (Option.mem_toList.mpr rfl)
              · exact .inr (.inr later)
          · rw [advanced]
            exact ⟨fun mem => mem.resolve_left List.not_mem_nil, .inr⟩

theorem now_lt_of_mem_runs (ahead : state.IsAhead) {run : Nat × α}
    (mem : run ∈ runs wait state moves) : state.now < run.1 := by
  rcases (mem_runs_iff ahead).mp mem with ⟨pending, _⟩ | ⟨front, time, back, same, ends, _⟩
  · exact ahead run pending
  · have called : (time, run.2) ∈ calls wait state moves := same ▸ List.mem_append_right _ List.mem_cons_self
    have since : state.now ≤ time := now_le_of_mem_calls called
    have later := delay_pos wait
    omega

theorem le_now_of_mem_runs (ahead : state.IsAhead) {run : Nat × α}
    (mem : run ∈ runs wait state moves) : run.1 ≤ (behind wait state moves).now := by
  rcases (mem_runs_iff ahead).mp mem with ⟨_, reached⟩ | ⟨_, _, _, _, _, reached⟩
  · exact reached.1
  · exact reached.1

end Crossref.Debounce

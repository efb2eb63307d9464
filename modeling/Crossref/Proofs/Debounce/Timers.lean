import Crossref.Proofs.Debounce

/-! A debounced action and its timers. The action keeps the handle of the timer that it has set last, even when
that timer has ended, and clears it before it sets the next one. So no two timers are ever set, and what runs is
the last call of each burst, if the timers can be set for the wait. -/

set_option autoImplicit false

namespace Crossref

open Debounce (Move)

variable {α : Type}

/-- A timer that is set: its handle, the time at which it ends, and the argument of the run that it starts. -/
structure Timer (α : Type) where
  handle : Nat
  time : Nat
  argument : α

def Timer.run (timer : Timer α) : Nat × α := (timer.time, timer.argument)

/-- A clock, the timers that are set on it, in the order in which they were set, and what a debounced action
keeps. -/
structure Timers (α : Type) where
  now : Nat
  waiting : List (Timer α)
  /-- How many timers were set so far. The next one gets this number as its handle. -/
  count : Nat
  kept : Option Nat

namespace Timers

/-- The clock at zero, before the action is called. -/
def start : Timers α := ⟨0, [], 0, none⟩

/-- Clears a timer. A handle whose timer has ended clears nothing. -/
def clear (handle : Nat) (timers : Timers α) : Timers α :=
  { timers with waiting := timers.waiting.filter fun timer => timer.handle ≠ handle }

/-- Sets a timer for the time `wait`, as far as it can be set for it. -/
def add (wait : Nat) (argument : α) (timers : Timers α) : Timers α :=
  { timers with
    waiting := timers.waiting ++ [⟨timers.count, timers.now + Debounce.delay wait, argument⟩]
    count := timers.count + 1 }

/-- A call of the debounced action. -/
def call (wait : Nat) (argument : α) (timers : Timers α) : Timers α :=
  let cleared := match timers.kept with
    | none => timers
    | some handle => timers.clear handle
  { cleared.add wait argument with kept := some cleared.count }

/-- Moves the clock forward, and gives the runs of the timers that end, the earliest first. -/
def advance (duration : Nat) (timers : Timers α) : List (Nat × α) × Timers α :=
  let now := timers.now + duration
  let ended := timers.waiting.filter fun timer => timer.time ≤ now
  ((ended.mergeSort fun first second => first.time ≤ second.time).map Timer.run,
    { timers with now := now, waiting := timers.waiting.filter fun timer => now < timer.time })

section

variable (wait : Nat)

def step (timers : Timers α) : Move α → Timers α
  | .call argument => timers.call wait argument
  | .elapse duration => (timers.advance duration).2

def behind (timers : Timers α) (moves : List (Move α)) : Timers α := moves.foldl (step wait) timers

/-- The runs with their times. -/
def runs (timers : Timers α) : List (Move α) → List (Nat × α)
  | [] => []
  | .call argument :: rest => runs (timers.call wait argument) rest
  | .elapse duration :: rest => (timers.advance duration).1 ++ runs (timers.advance duration).2 rest

end

/-- The timer that is set, if there is one, is that of the run that is put off, and its handle is kept. -/
structure Agrees (timers : Timers α) (state : Debounce α) : Prop where
  now : timers.now = state.now
  waiting : timers.waiting.map Timer.run = state.pending.toList
  kept : ∀ timer ∈ timers.waiting, timers.kept = some timer.handle

namespace Agrees

variable {wait : Nat} {timers : Timers α} {state : Debounce α}

theorem length_waiting_le (agrees : timers.Agrees state) : timers.waiting.length ≤ 1 := by
  rw [← List.length_map Timer.run, agrees.waiting]
  exact Option.length_toList_le

theorem start : (Timers.start : Timers α).Agrees .start where
  now := rfl
  waiting := rfl
  kept := List.forall_mem_nil _

/-- A call leaves the timer that it sets, and no other one. -/
theorem waiting_call (agrees : timers.Agrees state) (wait : Nat) (argument : α) :
    (timers.call wait argument).waiting = [⟨timers.count, state.now + Debounce.delay wait, argument⟩] := by
  have set : ∀ handle, timers.kept = some handle → (timers.clear handle).waiting = [] := by
    intro handle kept
    refine List.filter_eq_nil_iff.mpr fun timer mem differs => of_decide_eq_true differs ?_
    exact Option.some.inj ((agrees.kept timer mem).symm.trans kept)
  have unset : timers.kept = none → timers.waiting = [] := by
    intro kept
    refine List.eq_nil_iff_forall_not_mem.mpr fun timer mem => ?_
    exact nomatch kept.symm.trans (agrees.kept timer mem)
  rw [← agrees.now, call]
  cases kept : timers.kept with
  | none => simp only [add, unset kept, List.nil_append]
  | some handle =>
      simp only [add, set handle kept, List.nil_append]
      rfl

theorem call (agrees : timers.Agrees state) (wait : Nat) (argument : α) :
    (timers.call wait argument).Agrees (state.call wait argument) where
  now := by
    rw [Timers.call]
    split <;> exact agrees.now
  waiting := by
    rw [agrees.waiting_call]
    rfl
  kept := by
    rw [agrees.waiting_call, List.forall_mem_singleton, Timers.call]
    split <;> rfl

/-- Time that goes by ends the timer exactly if it reaches the run that is put off. -/
theorem advance (agrees : timers.Agrees state) (duration : Nat) :
    (timers.advance duration).1 = (state.advance duration).1.toList ∧
      (timers.advance duration).2.Agrees (state.advance duration).2 := by
  obtain ⟨now, waiting, kept⟩ := agrees
  rcases Debounce.advance_cases duration state with ⟨run, pending, early, advanced⟩ | ⟨ahead, advanced⟩
  · rw [Option.mem_def.mp pending, Option.toList_some, List.map_eq_singleton_iff] at waiting
    obtain ⟨timer, only, rfl⟩ := waiting
    have ends : timer.time ≤ timers.now + duration := now ▸ early
    have ended : (timers.advance duration).1 = [timer.run] ∧ (timers.advance duration).2.waiting = [] := by
      simp [Timers.advance, only, ends]
    rw [advanced]
    refine ⟨ended.1, congrArg (· + duration) now, ?_, ?_⟩
    · rw [ended.2]
      rfl
    · rw [ended.2]
      exact List.forall_mem_nil _
  · have later : ∀ timer ∈ timers.waiting, timers.now + duration < timer.time := by
      intro timer mem
      have pending : timer.run ∈ state.pending := Option.mem_toList.mp (waiting ▸ List.mem_map_of_mem mem)
      exact now ▸ ahead timer.run pending
    have ended : (timers.waiting.filter fun timer => timer.time ≤ timers.now + duration) = [] :=
      List.filter_eq_nil_iff.mpr fun timer mem early =>
        absurd (of_decide_eq_true early) (Nat.not_le.mpr (later timer mem))
    have left : (timers.waiting.filter fun timer => timers.now + duration < timer.time) = timers.waiting :=
      List.filter_eq_self.mpr fun timer mem => decide_eq_true (later timer mem)
    rw [advanced]
    simp only [Timers.advance, ended, left, List.mergeSort_nil]
    exact ⟨rfl, congrArg (· + duration) now, waiting, kept⟩

theorem behind (agrees : timers.Agrees state) (wait : Nat) (moves : List (Move α)) :
    (timers.behind wait moves).Agrees (state.behind wait moves) := by
  induction moves generalizing timers state with
  | nil => exact agrees
  | cons move rest ih =>
      cases move with
      | call argument => exact ih (agrees.call wait argument)
      | elapse duration => exact ih (agrees.advance duration).2

theorem runs_eq (agrees : timers.Agrees state) (wait : Nat) (moves : List (Move α)) :
    timers.runs wait moves = state.runs wait moves := by
  induction moves generalizing timers state with
  | nil => rfl
  | cons move rest ih =>
      cases move with
      | call argument => exact ih (agrees.call wait argument)
      | elapse duration =>
          obtain ⟨ended, further⟩ := agrees.advance duration
          rw [Timers.runs, Debounce.runs, ended, ih further]

end Agrees

end Timers

namespace Debounce

/-- How long only time goes by: until the next call, or to the end. -/
def lull : List (Move α) → Nat
  | [] => 0
  | .call _ :: _ => 0
  | .elapse duration :: rest => duration + lull rest

/-- The calls behind which the wait goes by before another call comes, each with the time at which its wait
ends. -/
def lastOfBursts (wait now : Nat) : List (Move α) → List (Nat × α)
  | [] => []
  | .call argument :: rest =>
    if wait ≤ lull rest then (now + wait, argument) :: lastOfBursts wait now rest
    else lastOfBursts wait now rest
  | .elapse duration :: rest => lastOfBursts wait (now + duration) rest

/-- The run that is put off, if its time is reached. -/
def due? (state : Debounce α) (time : Nat) : Option (Nat × α) := state.pending.filter fun run => run.1 ≤ time

theorem IsAhead.due?_eq_none {state : Debounce α} (ahead : state.IsAhead) : state.due? state.now = none :=
  Option.filter_eq_none_iff.mpr fun run pending early =>
    absurd (of_decide_eq_true early) (Nat.not_le.mpr (ahead run pending))

theorem due?_call (wait : Nat) (argument : α) (state : Debounce α) (duration : Nat) :
    (state.call wait argument).due? (state.now + duration) =
      if delay wait ≤ duration then some (state.now + delay wait, argument) else none := by
  rw [due?, Debounce.call, putOff, Option.filter_some]
  simp only [Nat.add_le_add_iff_left, decide_eq_true_eq]

/-- The run that is put off comes if only time goes by until then. The other runs are those of the calls that are
the last ones of bursts. -/
theorem runs_eq_lastOfBursts (wait : Nat) {state : Debounce α} (ahead : state.IsAhead) (moves : List (Move α)) :
    runs wait state moves =
      (state.due? (state.now + lull moves)).toList ++ lastOfBursts (delay wait) state.now moves := by
  induction moves generalizing state with
  | nil =>
      rw [lull, Nat.add_zero, ahead.due?_eq_none]
      rfl
  | cons move rest ih =>
      cases move with
      | call argument =>
          have called : runs wait (state.call wait argument) rest =
              ((state.call wait argument).due? (state.now + lull rest)).toList ++
                lastOfBursts (delay wait) state.now rest :=
            ih (isAhead_call wait argument)
          rw [runs, called, due?_call, lull, Nat.add_zero, ahead.due?_eq_none, lastOfBursts]
          split <;> rfl
      | elapse duration =>
          have later := ih (isAhead_advance duration : (state.advance duration).2.IsAhead)
          rw [runs, lull, later, lastOfBursts, now_advance, ← Nat.add_assoc]
          rcases advance_cases duration state with ⟨run, pending, early, advanced⟩ | ⟨_, advanced⟩
          · have reached : state.due? (state.now + duration + lull rest) = some run :=
              Option.filter_eq_some_iff.mpr ⟨pending, decide_eq_true (Nat.le_add_right_of_le early)⟩
            rw [advanced, reached]
            rfl
          · rw [advanced]
            rfl

/-- What runs is the last call of each burst, once, when its wait ends, if a timer can be set for the wait. A longer one
ends after a millisecond. The timers that the action sets and clears run the same, and at no time are two of them
set. -/
theorem runs_last_call_of_each_burst {wait : Nat} (positive : 0 < wait) (moves : List (Move α)) :
    (wait ≤ longestWait → runs wait start moves = lastOfBursts wait 0 moves) ∧
      (longestWait < wait → runs wait start moves = lastOfBursts 1 0 moves) ∧
      Timers.runs wait .start moves = runs wait start moves ∧
      (Timers.behind wait .start moves).waiting.length ≤ 1 := by
  have agrees := Timers.Agrees.start (α := α)
  have ran : runs wait start moves = lastOfBursts (delay wait) 0 moves :=
    runs_eq_lastOfBursts wait (isAhead_of_pending_eq_none rfl) moves
  refine ⟨fun held => ?_, fun longer => ?_, agrees.runs_eq wait moves,
    (agrees.behind wait moves).length_waiting_le⟩
  · rw [ran, delay_of_le positive held]
  · rw [ran, delay_of_lt longer]

/-- A call that is put off by another one, a call at the moment at which that one runs, and one more right behind
it. The second and the last one run. -/
theorem runs_last_call_of_each_burst_at_deadline :
    let moves : List (Move Char) :=
      [.call 'a', .elapse 50, .call 'b', .elapse 100, .call 'c', .call 'd', .elapse 70, .elapse 300]
    0 < 100 ∧ 100 ≤ longestWait ∧ runs 100 start moves = [(150, 'b'), (250, 'd')] ∧
    Timers.runs 100 .start moves = [(150, 'b'), (250, 'd')] ∧
    (Timers.behind 100 .start moves).waiting.length ≤ 1 := by
  intro moves
  have positive : 0 < 100 := by decide
  have held : 100 ≤ longestWait := by decide
  have last : lastOfBursts 100 0 moves = [(150, 'b'), (250, 'd')] := by decide
  obtain ⟨runsLast, _, timed, alone⟩ := runs_last_call_of_each_burst positive moves
  have ran := (runsLast held).trans last
  exact ⟨positive, held, ran, timed.trans ran, alone⟩

/-- If the wait is longer than a timer can be set for, a call runs that another one follows within the wait, and one
behind which the clock does not reach the end of the wait. -/
theorem call_may_run_before_its_wait_ends :
    let burst : List (Move Char) := [.call 'a', .elapse 1, .call 'b', .elapse 1]
    let single : List (Move Char) := [.elapse 1, .call 'a', .elapse 9007199254740991]
    Timers.runs 2147483648 .start burst = [(1, 'a'), (2, 'b')] ∧ lastOfBursts 2147483648 0 burst = [] ∧
      Timers.runs 9007199254740992 .start single = [(2, 'a')] ∧ lastOfBursts 9007199254740992 0 single = [] ∧
      ¬ ∀ wait, 0 < wait → ∀ moves : List (Move Char), Timers.runs wait .start moves = lastOfBursts wait 0 moves := by
  intro burst single
  have agrees := Timers.Agrees.start (α := Char)
  have early : Timers.runs 2147483648 .start burst = [(1, 'a'), (2, 'b')] :=
    (agrees.runs_eq 2147483648 burst).trans (by decide)
  have none : lastOfBursts 2147483648 0 burst = [] := by decide
  refine ⟨early, none, (agrees.runs_eq 9007199254740992 single).trans (by decide), by decide, fun claimed => ?_⟩
  have same := claimed 2147483648 (by decide) burst
  rw [early, none] at same
  cases same

end Debounce

end Crossref

import Mathlib.Data.List.Basic
import Crossref.Proofs.Debounce
import Crossref.Proofs.Watch.Reaction

/-! When a watch checks again, and in what. Whatever happens to it, and however its checks end, it checks once the
changes pause, each time with the index of the disk at that moment, until a line cannot be logged and the program
ends. -/

set_option autoImplicit false

namespace Crossref.Watch

open Reaction

/-- A watch at an event. -/
structure Turn where
  watch : Watch
  event : WatchEvent

namespace Turn

def result (turn : Turn) : Except Failure Unit := (react turn.event turn.watch).1

def behind (turn : Turn) : Watch := (react turn.event turn.watch).2

/-- Whether the watch is told about the event. -/
def IsSeen (turn : Turn) : Prop := ∀ action, turn.event ≠ .unseen action

/-- Whether there was a change that the watch does not ignore. -/
def isDelivered (turn : Turn) : Bool :=
  match turn.event with
  | .changed _ path => !turn.watch.ignores path
  | _ => false

/-- Whether a change is taken up. It is not if its line cannot be logged. -/
def takesUp (turn : Turn) : Bool := turn.isDelivered && turn.result.isOk

/-- Whether the program goes on behind the event. -/
def goesOn (turn : Turn) : Bool := turn.watch.outlives turn.event

/-- The time that goes by. -/
def duration (turn : Turn) : Nat :=
  match turn.event with
  | .passed duration => duration
  | _ => 0

/-- The time of the recheck at a turn, and the watch at its beginning. -/
def recheck? (turn : Turn) : Option (Nat × Watch) :=
  match turn.event with
  | .passed duration =>
    (turn.watch.timer.advance duration).1.map fun run =>
      (run.1, { turn.watch with timer := (turn.watch.timer.advance duration).2 })
  | _ => none

end Turn

/-- The turn at an event. Each check may do something else than those before it. -/
def turn (checks : Nat → Action) (watch : Watch) (event : WatchEvent) : Turn :=
  ⟨{ watch with check := checks watch.checks }, event⟩

def turns (checks : Nat → Action) (watch : Watch) : List WatchEvent → List Turn
  | [] => []
  | event :: rest => watch.turn checks event :: (watch.turn checks event).behind.turns checks rest

def behind (checks : Nat → Action) (watch : Watch) (events : List WatchEvent) : Watch :=
  events.foldl (fun watch event => (watch.turn checks event).behind) watch

/-- The events that the program meets. It meets none behind the one that ends it. -/
def met (checks : Nat → Action) (watch : Watch) : List WatchEvent → List WatchEvent
  | [] => []
  | event :: rest =>
    event ::
      if (watch.turn checks event).goesOn then (watch.turn checks event).behind.met checks rest else []

def times (turns : List Turn) : List Nat := turns.map (·.watch.timer.now)

def recheckTimes (turns : List Turn) : List Nat := (turns.filterMap Turn.recheck?).map Prod.fst

/-- The changes pause until a time that a clock has reached, which shows `clock` in the end. -/
def PausesAt (changes : List Nat) (clock time : Nat) : Prop :=
  ∃ front change back, changes = front ++ change :: back ∧ time = change + pause ∧
    time ≤ clock ∧ ∀ later ∈ back, time ≤ later

section Life

variable {checks : Nat → Action} {watch : Watch}

theorem turns_append (front back : List WatchEvent) :
    watch.turns checks (front ++ back) = watch.turns checks front ++ (watch.behind checks front).turns checks back := by
  induction front generalizing watch with
  | nil => rfl
  | cons event rest ih =>
      have goesOn := @ih (watch.turn checks event).behind
      exact congrArg (watch.turn checks event :: ·) goesOn

theorem behind_append (front back : List WatchEvent) :
    watch.behind checks (front ++ back) = (watch.behind checks front).behind checks back := List.foldl_append

theorem met_cons_of_goesOn {event : WatchEvent} (goesOn : (watch.turn checks event).goesOn) (rest : List WatchEvent) :
    watch.met checks (event :: rest) = event :: (watch.turn checks event).behind.met checks rest := by
  rw [met, if_pos goesOn]

theorem met_cons_of_ends {event : WatchEvent} (ends : ¬ (watch.turn checks event).goesOn) (rest : List WatchEvent) :
    watch.met checks (event :: rest) = [event] := by
  rw [met, if_neg ends]

/-- An event that ends the program is the last one that it meets. -/
theorem eq_nil_of_met {events front back : List WatchEvent} {event : WatchEvent}
    (meets : watch.met checks events = front ++ event :: back)
    (ends : ¬ ((watch.behind checks front).turn checks event).goesOn) : back = [] := by
  induction events generalizing watch front with
  | nil => exact absurd meets.symm (List.append_ne_nil_of_right_ne_nil _ (List.cons_ne_nil _ _))
  | cons first rest ih =>
      by_cases goesOn : (watch.turn checks first).goesOn
      · rw [met_cons_of_goesOn goesOn] at meets
        cases front with
        | nil =>
            obtain ⟨rfl, _⟩ := List.cons.inj meets
            exact absurd goesOn ends
        | cons _ front =>
            obtain ⟨rfl, further⟩ := List.cons.inj meets
            exact ih further ends
      · rw [met_cons_of_ends goesOn] at meets
        cases front with
        | nil => exact (List.cons.inj meets).2.symm
        | cons _ front =>
            have nothing := (List.cons.inj meets).2.symm
            exact absurd nothing (List.append_ne_nil_of_right_ne_nil _ (List.cons_ne_nil _ _))

theorem isPrefix_met (watch : Watch) (events : List WatchEvent) : watch.met checks events <+: events := by
  induction events generalizing watch with
  | nil => exact List.prefix_rfl
  | cons event rest ih =>
      by_cases goesOn : (watch.turn checks event).goesOn
      · rw [met_cons_of_goesOn goesOn]
        exact (List.prefix_cons_inj event).mpr (ih _)
      · rw [met_cons_of_ends goesOn]
        exact (List.prefix_cons_inj event).mpr List.nil_prefix

end Life

section Timer

/-- What only signals change. -/
def ending (watch : Watch) : List Signal × Nat × Bool := (watch.awaited, watch.endings, watch.isOver)

def control (watch : Watch) : Debounce Unit × List Signal × Nat × Bool := (watch.timer, watch.ending)

theorem ensures_control {α : Type} (holds : Debounce Unit × List Signal × Nat × Bool → Prop) (work : Work α) :
    Ensures (fun watch => holds watch.control) (fun _ => True) (inWorkspace work) :=
  ensures_inWorkspace (fun _ held => held) fun _ _ _ _ => trivial

theorem control_recheck (watch : Watch) : (recheck watch).2.control = watch.control := by
  have kept {α : Type} (work : Work α) := ensures_control (· = watch.control) work
  exact (ensures_recheck_of (fun _ _ => kept _) (fun _ => kept _) (fun _ same => same) watch rfl).1

theorem timer_heed (signal : Signal) (watch : Watch) : (heed signal watch).2.timer = watch.timer :=
  (ensures_heed (fun _ _ => ensures_control (·.1 = watch.timer) _) (fun _ _ _ _ same => same) signal watch rfl).1

namespace Turn

/-- What an event does to the timer and the signals of a watch. -/
inductive Moves (turn : Turn) : Prop
  | calls : turn.takesUp = true → turn.duration = 0 → turn.recheck? = none →
      turn.behind.control = (turn.watch.timer.call pause (), turn.watch.ending) → Moves turn
  | elapses (duration : Nat) : turn.event = .passed duration →
      turn.behind.control = ((turn.watch.timer.advance duration).2, turn.watch.ending) → Moves turn
  | heeds (signal : Signal) : turn.event = .signalled signal → turn.behind.timer = turn.watch.timer → Moves turn
  | rests : turn.takesUp = false → turn.duration = 0 → turn.recheck? = none →
      turn.behind.control = turn.watch.control → Moves turn

theorem moves (turn : Turn) : turn.Moves := by
  obtain ⟨watch, event⟩ := turn
  cases event with
  | unseen action => exact .rests rfl rfl rfl rfl
  | changed name path =>
      rcases change_cases name path watch with ⟨ignored, reacts⟩ | ⟨told, session, reacts | ⟨failure, reacts⟩⟩
      · have nothing : takesUp ⟨watch, .changed name path⟩ = false := by simp [takesUp, isDelivered, ignored]
        exact .rests nothing rfl rfl (congrArg (·.2.control) reacts)
      · have result : Turn.result ⟨watch, .changed name path⟩ = .ok () := congrArg Prod.fst reacts
        have takesUp : takesUp ⟨watch, .changed name path⟩ = true := by
          simp [takesUp, isDelivered, told, result, Except.isOk, Except.toBool]
        exact .calls takesUp rfl rfl (congrArg (·.2.control) reacts)
      · have result : Turn.result ⟨watch, .changed name path⟩ = .error failure := congrArg Prod.fst reacts
        have lost : takesUp ⟨watch, .changed name path⟩ = false := by
          simp [takesUp, result, Except.isOk, Except.toBool]
        exact .rests lost rfl rfl (congrArg (·.2.control) reacts)
  | passed duration =>
      refine .elapses duration rfl ((congrArg (·.2.control) (pass_apply duration watch)).trans ?_)
      split
      · exact control_recheck _
      · rfl
  | failed message => exact .rests rfl rfl rfl rfl
  | stuck message => exact .rests rfl rfl rfl rfl
  | signalled signal => exact .heeds signal rfl (timer_heed signal watch)

/-- A change that does not end the program is taken up. -/
theorem takesUp_of_goesOn {turn : Turn} (goesOn : turn.goesOn) : turn.takesUp = turn.isDelivered := by
  obtain ⟨watch, event⟩ := turn
  cases event with
  | changed name path =>
      have done : Turn.result ⟨watch, .changed name path⟩ |>.isOk := goesOn
      rw [takesUp, done, Bool.and_true]
  | _ => rfl

theorem duration_of_isDelivered {turn : Turn} (delivered : turn.isDelivered) : turn.duration = 0 := by
  obtain ⟨watch, event⟩ := turn
  cases event with
  | passed duration => cases delivered
  | _ => rfl

theorem now_behind (turn : Turn) : turn.behind.timer.now = turn.watch.timer.now + turn.duration := by
  cases turn.moves with
  | calls _ still _ moved =>
      have timer : turn.behind.timer = turn.watch.timer.call pause () := congrArg Prod.fst moved
      rw [timer, still]
      rfl
  | elapses duration passes moved =>
      have timer : turn.behind.timer = (turn.watch.timer.advance duration).2 := congrArg Prod.fst moved
      rw [timer, Debounce.now_advance, Turn.duration, passes]
  | heeds signal signalled timer =>
      rw [timer, Turn.duration, signalled]
      rfl
  | rests _ still _ moved =>
      have timer : turn.behind.timer = turn.watch.timer := congrArg Prod.fst moved
      rw [timer, still]
      rfl

theorem ending_behind (turn : Turn) (other : ∀ signal, turn.event ≠ .signalled signal) :
    turn.behind.ending = turn.watch.ending := by
  cases turn.moves with
  | calls _ _ _ moved => exact congrArg Prod.snd moved
  | elapses _ _ moved => exact congrArg Prod.snd moved
  | heeds signal signalled _ => exact absurd signalled (other signal)
  | rests _ _ _ moved => exact congrArg Prod.snd moved

end Turn

variable {checks : Nat → Action} {watch : Watch} {events : List WatchEvent}

theorem ending_behind (unsignalled : ∀ signal, .signalled signal ∉ events) :
    (watch.behind checks events).ending = watch.ending := by
  induction events generalizing watch with
  | nil => rfl
  | cons event rest ih =>
      have kept := (watch.turn checks event).ending_behind fun signal same =>
        unsignalled signal (same ▸ List.mem_cons_self)
      exact (ih fun signal mem => unsignalled signal (List.mem_cons_of_mem _ mem)).trans kept

/-- The timer of a watch goes through moves of a debounced action. -/
structure Follows (checks : Nat → Action) (watch : Watch) (events : List WatchEvent)
    (moves : List (Debounce.Move Unit)) : Prop where
  timer : (watch.behind checks events).timer = Debounce.behind pause watch.timer moves
  changes : times ((watch.turns checks events).filter Turn.takesUp) =
    (Debounce.calls pause watch.timer moves).map Prod.fst
  rechecks : recheckTimes (watch.turns checks events) = (Debounce.runs pause watch.timer moves).map Prod.fst

theorem exists_follows (checks : Nat → Action) (watch : Watch) (events : List WatchEvent) :
    ∃ moves, watch.Follows checks events moves := by
  induction events generalizing watch with
  | nil => exact ⟨[], rfl, rfl, rfl⟩
  | cons event rest ih =>
      obtain ⟨moves, timer, changes, rechecks⟩ := ih (watch.turn checks event).behind
      -- an event that leaves the timer alone is no move of it
      have still (noChange : (watch.turn checks event).takesUp = false)
          (noRecheck : (watch.turn checks event).recheck? = none)
          (kept : (watch.turn checks event).behind.timer = watch.timer) :
          watch.Follows checks (event :: rest) moves := by
        rw [kept] at timer changes rechecks
        refine ⟨timer, ?_, ?_⟩
        · rw [turns, List.filter_cons_of_neg (Bool.eq_false_iff.mp noChange), changes]
        · rw [turns, recheckTimes, List.filterMap_cons_none noRecheck, ← recheckTimes, rechecks]
      cases (watch.turn checks event).moves with
      | calls takesUp _ noRecheck moved =>
          have called : (watch.turn checks event).behind.timer = watch.timer.call pause () := congrArg Prod.fst moved
          rw [called] at timer changes rechecks
          refine ⟨.call () :: moves, timer, ?_, ?_⟩
          · rw [turns, List.filter_cons_of_pos takesUp, times, List.map_cons, ← times, changes]
            rfl
          · rw [turns, recheckTimes, List.filterMap_cons_none noRecheck, ← recheckTimes, rechecks]
            rfl
      | elapses duration passes moved =>
          obtain rfl : event = .passed duration := passes
          have advanced : (watch.turn checks (.passed duration)).behind.timer = (watch.timer.advance duration).2 :=
            congrArg Prod.fst moved
          have noChange : (watch.turn checks (.passed duration)).takesUp = false := rfl
          rw [advanced] at timer changes rechecks
          refine ⟨.elapse duration :: moves, timer, ?_, ?_⟩
          · rw [turns, List.filter_cons_of_neg (Bool.eq_false_iff.mp noChange), changes]
            rfl
          · rw [Debounce.runs, List.map_append, ← rechecks, turns, recheckTimes, List.filterMap_cons, Turn.recheck?]
            dsimp only [turn]
            cases (watch.timer.advance duration).1 <;> rfl
      | heeds signal signalled kept =>
          obtain rfl : event = .signalled signal := signalled
          exact ⟨moves, still rfl rfl kept⟩
      | rests noChange _ noRecheck moved => exact ⟨moves, still noChange noRecheck (congrArg Prod.fst moved)⟩

/-- Of the changes that the program meets only the last one may not be taken up, and no time goes by behind it. -/
theorem filter_isDelivered_met (watch : Watch) (events : List WatchEvent) :
    let met := watch.met checks events
    (watch.turns checks met).filter Turn.isDelivered = (watch.turns checks met).filter Turn.takesUp ∨
      ∃ lost,
        (watch.turns checks met).filter Turn.isDelivered = (watch.turns checks met).filter Turn.takesUp ++ [lost] ∧
        lost.watch.timer.now = (watch.behind checks met).timer.now := by
  induction events generalizing watch with
  | nil => exact .inl rfl
  | cons event rest ih =>
      dsimp only at ih ⊢
      by_cases goesOn : (watch.turn checks event).goesOn
      · have same := Turn.takesUp_of_goesOn goesOn
        rw [met_cons_of_goesOn goesOn, turns, List.filter_cons, List.filter_cons, same]
        rcases ih (watch.turn checks event).behind with all | ⟨lost, later, clock⟩
        · rw [all]
          exact .inl rfl
        · rw [later]
          refine .inr ⟨lost, ?_, clock⟩
          split <;> rfl
      · rw [met_cons_of_ends goesOn, turns, turns]
        cases isDelivered : (watch.turn checks event).isDelivered with
        | false => exact .inl (by simp [Turn.takesUp, isDelivered])
        | true =>
            cases takesUp : (watch.turn checks event).takesUp with
            | true => exact .inl (by simp [takesUp, isDelivered])
            | false =>
                refine .inr ⟨watch.turn checks event, by simp [takesUp, isDelivered], ?_⟩
                have clock := (watch.turn checks event).now_behind
                rw [Turn.duration_of_isDelivered isDelivered, Nat.add_zero] at clock
                exact clock.symm

/-- A change at the time that the clock shows in the end is paused for at no time until then. -/
theorem pausesAt_concat {changes : List Nat} {clock time : Nat} :
    PausesAt (changes ++ [clock]) clock time ↔ PausesAt changes clock time := by
  constructor
  · rintro ⟨front, change, back, same, ends, reached, before⟩
    rcases List.eq_nil_or_concat' back with rfl | ⟨back, last, rfl⟩
    · obtain ⟨_, isLast⟩ := List.append_inj' same rfl
      have isClock : clock = change := List.head_eq_of_cons_eq isLast
      have positive : 0 < pause := by decide
      omega
    · have shorter : changes ++ [clock] = (front ++ change :: back) ++ [last] := by simpa using same
      have earlier := (List.append_inj' shorter rfl).1
      exact ⟨front, change, back, earlier, ends, reached,
        fun later mem => before later (List.mem_append_left _ mem)⟩
  · rintro ⟨front, change, back, rfl, ends, reached, before⟩
    refine ⟨front, change, back ++ [clock], by simp, ends, reached, fun later mem => ?_⟩
    rcases List.mem_append.mp mem with earlier | last
    · exact before later earlier
    · exact (List.mem_singleton.mp last) ▸ reached

/-- The changes that are delivered pause when those pause that are taken up. -/
theorem pausesAt_isDelivered_iff (watch : Watch) (events : List WatchEvent) {time : Nat} :
    let met := watch.met checks events
    let clock := (watch.behind checks met).timer.now
    PausesAt (times ((watch.turns checks met).filter Turn.isDelivered)) clock time ↔
      PausesAt (times ((watch.turns checks met).filter Turn.takesUp)) clock time := by
  intro met clock
  rcases @filter_isDelivered_met checks watch events with all | ⟨lost, same, atEnd⟩
  · rw [all]
  · rw [same, times, List.map_append, List.map_singleton, atEnd]
    exact pausesAt_concat

variable (ahead : watch.timer.IsAhead)

include ahead

theorem now_lt_of_mem_recheckTimes {time : Nat} (mem : time ∈ recheckTimes (watch.turns checks events)) :
    watch.timer.now < time := by
  obtain ⟨moves, follows⟩ := exists_follows checks watch events
  rw [follows.rechecks] at mem
  obtain ⟨run, runs, rfl⟩ := List.mem_map.mp mem
  exact Debounce.now_lt_of_mem_runs ahead runs

theorem le_now_of_mem_recheckTimes {time : Nat} (mem : time ∈ recheckTimes (watch.turns checks events)) :
    time ≤ (watch.behind checks events).timer.now := by
  obtain ⟨moves, follows⟩ := exists_follows checks watch events
  rw [follows.rechecks] at mem
  obtain ⟨run, runs, rfl⟩ := List.mem_map.mp mem
  exact follows.timer ▸ Debounce.le_now_of_mem_runs ahead runs

omit ahead

theorem mem_recheckTimes_iff (rests : watch.timer.pending = none) {time : Nat} :
    time ∈ recheckTimes (watch.turns checks events) ↔
      PausesAt (times ((watch.turns checks events).filter Turn.takesUp)) (watch.behind checks events).timer.now
        time := by
  obtain ⟨moves, follows⟩ := exists_follows checks watch events
  have isRun {run : Nat × Unit} : run ∈ Debounce.runs pause watch.timer moves ↔ _ :=
    Debounce.mem_runs_iff (Debounce.isAhead_of_pending_eq_none rests)
  rw [follows.timer, follows.changes, follows.rechecks]
  constructor
  · intro listed
    obtain ⟨run, mem, rfl⟩ := List.mem_map.mp listed
    rcases isRun.mp mem with ⟨pending, _⟩ | ⟨front, change, back, same, ends, reached, before⟩
    · rw [rests] at pending
      exact absurd pending (Option.not_mem_none run)
    · refine ⟨front.map Prod.fst, change, back.map Prod.fst, ?_, ends, reached, List.forall_mem_map.mpr before⟩
      rw [same, List.map_append, List.map_cons]
  · rintro ⟨front, change, back, same, ends, reached, before⟩
    obtain ⟨front, rest, split, _, same⟩ := List.map_eq_append_iff.mp same
    obtain ⟨call, back, rfl, rfl, rfl⟩ := List.map_eq_cons_iff.mp same
    exact List.mem_map.mpr ⟨(time, ()), isRun.mpr (.inr ⟨front, call.1, back, split, ends, reached,
      List.forall_mem_map.mp before⟩), rfl⟩

end Timer

section Turn

variable {project : Project} {logFile : Option Text}

/-- What a turn does, if no read action is under way at its beginning. -/
structure Turn.Obeys (project : Project) (logFile : Option Text) (turn : Turn) : Prop where
  clock : turn.behind.timer.now = turn.watch.timer.now + turn.duration
  rechecks : ∀ time before, turn.recheck? = some (time, before) →
    Rechecked project logFile before (turn.result, turn.behind)
  rests : turn.recheck? = none → turn.behind.checks = turn.watch.checks ∧
    (turn.IsSeen → turn.behind.workspace.project = turn.watch.workspace.project)
  fails : turn.IsSeen → ∀ failure, turn.result = .error failure → failure.IsUnwritten logFile

/-- What a turn does without a log file. What a check does to the project and to the disk remains, whether it fails or
not, and nothing else is done to them. -/
structure Turn.Succeeds (project : Project) (turn : Turn) : Prop where
  delivers : turn.takesUp = turn.isDelivered
  rechecks : turn.recheck?.isSome → ∃ opened : Workspace,
    opened.project = project.snapshot turn.watch.workspace.session.disk 0 ∧
    opened.session.disk = turn.watch.workspace.session.disk ∧
    turn.result = .ok () ∧
    turn.behind.unshown = ((turn.watch.check.run opened).2.project,
      (turn.watch.check.run opened).2.session.disk, turn.watch.checks + 1)

namespace Turn

variable {turn : Turn}

theorem of_recheck?_eq_some {time : Nat} {before : Watch} (due : turn.recheck? = some (time, before)) :
    ∃ timer, before = { turn.watch with timer } ∧ react turn.event turn.watch = recheck before := by
  obtain ⟨watch, event⟩ := turn
  cases event with
  | passed duration =>
      have reacts := pass_apply duration watch
      obtain ⟨run, advanced, same⟩ := Option.map_eq_some_iff.mp due
      rw [if_pos (Option.isSome_of_eq_some advanced)] at reacts
      exact ⟨_, (Prod.mk.inj same).2.symm, (Prod.mk.inj same).2 ▸ reacts⟩
  | _ => cases due

theorem rests_of_recheck?_eq_none (noRecheck : turn.recheck? = none) :
    turn.behind.checks = turn.watch.checks ∧
      (turn.IsSeen → turn.behind.workspace.project = turn.watch.workspace.project) := by
  obtain ⟨watch, event⟩ := turn
  have told (level : Level) (message : Text) :
      Ensures (fun other => other.checks = watch.checks ∧ other.workspace.project = watch.workspace.project)
        (fun _ => True) (say level message) := fun _ same => ⟨same, fun _ _ => trivial⟩
  have kept (seen : Turn.IsSeen ⟨watch, event⟩) := (react_of told (fun _ _ _ _ _ _ same => same) seen
    (fun duration passes due => ?_) ⟨rfl, rfl⟩).1
  · by_cases unseen : ∃ action, event = .unseen action
    · obtain ⟨action, rfl⟩ := unseen
      exact ⟨rfl, fun seen => absurd rfl (seen action)⟩
    · have seen : Turn.IsSeen ⟨watch, event⟩ := fun action same => unseen ⟨action, same⟩
      exact ⟨(kept seen).1, fun _ => (kept seen).2⟩
  · subst passes
    rw [Option.map_eq_none_iff.mp noRecheck] at due
    cases due

theorem obeys (isOpen : turn.watch.IsOpen project logFile) : turn.Obeys project logFile where
  clock := turn.now_behind
  rechecks time before due := by
    obtain ⟨timer, rfl, reacts⟩ := of_recheck?_eq_some due
    have outcome : Rechecked project logFile { turn.watch with timer } (recheck _) := rechecked_recheck isOpen
    rwa [← reacts] at outcome
  rests := rests_of_recheck?_eq_none
  fails seen := (ensures_react seen turn.watch isOpen).2

theorem succeeds (isOpen : turn.watch.IsOpen project logFile) (unlogged : ∀ path ∈ logFile, path = []) :
    turn.Succeeds project where
  delivers := by
    obtain ⟨watch, event⟩ := turn
    cases event with
    | changed name path =>
        have done : Turn.result ⟨watch, .changed name path⟩ = .ok () :=
          react_of_unlogged unlogged (fun action same => by cases same) isOpen
        rw [takesUp, done]
        exact Bool.and_true _
    | _ => rfl
  rechecks due := by
    obtain ⟨⟨time, before⟩, due⟩ := Option.isSome_iff_exists.mp due
    obtain ⟨timer, rfl, reacts⟩ := of_recheck?_eq_some due
    have begins : IsOpen project logFile { turn.watch with timer } := isOpen
    rw [result, behind, reacts]
    exact recheck_of_unlogged unlogged begins

end Turn

variable {checks : Nat → Action}

theorem isOpen_of_mem_turns (events : List WatchEvent) {watch : Watch} (isOpen : watch.IsOpen project logFile) :
    ∀ turn ∈ watch.turns checks events, turn.watch.IsOpen project logFile := by
  induction events generalizing watch with
  | nil => exact fun _ mem => absurd mem List.not_mem_nil
  | cons event rest ih =>
      exact List.forall_mem_cons.mpr ⟨isOpen, ih (isOpen_react event isOpen)⟩

/-- A watch begins in an open project, with its clock at zero, and awaits both signals. -/
theorem of_start {disk : Disk} {root : Text} {config : Config} {configFile : Option Text} {check : Action}
    {session : Session} {watch : Watch}
    (started : (start (Project.ofDirectory disk root config configFile).value check session).1 = .ok watch) :
    watch.IsOpen (Project.ofDirectory disk root config configFile).value session.logFile ∧
      watch.control = (.start, [.interrupt, .terminate], 0, false) := by
  rw [start, bind_apply] at started
  rcases Job.deliver_cases ⟨.info, idleMessage⟩ session with ⟨behind, done, same⟩ | ⟨error, behind, lost, _⟩
  · rw [Job.say, done] at started
    cases started
    exact ⟨⟨disk, Workspace.ofDirectory_eq_snapshot disk root config configFile, same⟩, rfl⟩
  · rw [Job.say, lost] at started
    cases started

end Turn

section Life

variable {project : Project} {logFile : Option Text} {checks : Nat → Action}

end Life

end Crossref.Watch

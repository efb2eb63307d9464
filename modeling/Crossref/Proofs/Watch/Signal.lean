import Mathlib.Data.List.Induction
import Crossref.Proofs.Watch.Recheck

/-! What a signal ends. It ends the watching, but neither the timer nor what is told about it: a check that was put off
comes also behind a signal, and each of the two signals requests the end of the watching once. -/

set_option autoImplicit false

namespace Crossref.Watch

open Reaction

variable {checks : Nat → Action} {watch : Watch} {project : Project} {logFile : Option Text}

section Timer

theorem recheckTimes_append (front back : List Turn) :
    recheckTimes (front ++ back) = recheckTimes front ++ recheckTimes back := by
  rw [recheckTimes, List.filterMap_append, List.map_append]
  rfl

theorem isAhead_behind (ahead : watch.timer.IsAhead) (events : List WatchEvent) :
    (watch.behind checks events).timer.IsAhead := by
  obtain ⟨moves, follows⟩ := exists_follows checks watch events
  exact follows.timer ▸ Debounce.isAhead_behind ahead

theorem le_now_of_mem_times {events : List WatchEvent} {time : Nat}
    (mem : time ∈ times ((watch.turns checks events).filter Turn.takesUp)) :
    time ≤ (watch.behind checks events).timer.now := by
  obtain ⟨moves, follows⟩ := exists_follows checks watch events
  rw [follows.changes] at mem
  obtain ⟨call, calls, rfl⟩ := List.mem_map.mp mem
  exact follows.timer ▸ Debounce.le_now_of_mem_calls calls

/-- The rechecks of a later part of a run are those of the run that are still to come. -/
theorem mem_recheckTimes_behind_iff (ahead : watch.timer.IsAhead) (front back : List WatchEvent) {time : Nat} :
    time ∈ recheckTimes ((watch.behind checks front).turns checks back) ↔
      (watch.behind checks front).timer.now < time ∧ time ∈ recheckTimes (watch.turns checks (front ++ back)) := by
  rw [turns_append, recheckTimes_append, List.mem_append]
  constructor
  · exact fun mem => ⟨now_lt_of_mem_recheckTimes (isAhead_behind ahead front) mem, .inr mem⟩
  · rintro ⟨later, earlier | mem⟩
    · exact absurd (le_now_of_mem_recheckTimes ahead earlier) (Nat.not_le.mpr later)
    · exact mem

/-- Behind all changes only the last of them can be paused for. -/
theorem pausesAt_iff_of_lt {changes : List Nat} {clock time : Nat} (later : ∀ change ∈ changes, change < time) :
    PausesAt changes clock time ↔
      ∃ change, changes.getLast? = some change ∧ time = change + pause ∧ time ≤ clock := by
  constructor
  · rintro ⟨front, change, back, rfl, ends, reached, before⟩
    cases back with
    | nil => exact ⟨change, List.getLast?_concat, ends, reached⟩
    | cons next rest =>
        have mem : next ∈ front ++ change :: next :: rest := by simp
        exact absurd (before next List.mem_cons_self) (Nat.not_le.mpr (later next mem))
  · rintro ⟨change, last, ends, reached⟩
    obtain ⟨front, rfl⟩ := List.getLast?_eq_some_iff.mp last
    exact ⟨front, change, [], rfl, ends, reached, fun _ mem => absurd mem List.not_mem_nil⟩

end Timer

section Ending

/-- What is done about a signal after its line. -/
def shutDown : Reaction Unit := do
  if let some message := (← get).obstacle then
    say .error ("Failed to close watcher: " ++ message)
  modify fun watch => { watch with isOver := true }

/-- The watch does not await a signal any more. -/
def without (signal : Signal) (watch : Watch) : Watch :=
  { watch with awaited := watch.awaited.filter (· ≠ signal) }

theorem heed_of_mem {signal : Signal} (awaits : signal ∈ watch.awaited) :
    heed signal watch =
      match say .info "\nShutting down..." (watch.without signal) with
      | (.ok _, told) => shutDown { told with endings := told.endings + 1 }
      | (.error failure, told) => (.error failure, told) := by
  have got : (get : Reaction Watch) watch = (.ok watch, watch) := rfl
  have moved : (modify fun other => { other with awaited := watch.awaited.filter (· ≠ signal) } :
      Reaction Unit) watch = (.ok (), watch.without signal) := rfl
  rw [heed, bind_apply, got]
  dsimp only
  rw [if_pos (List.contains_iff_mem.mpr awaits), bind_apply, moved]
  dsimp only
  rw [bind_apply]
  rcases say .info "\nShutting down..." (watch.without signal) with ⟨_ | _, told⟩
  · rfl
  · rfl

theorem heed_of_notMem {signal : Signal} (came : signal ∉ watch.awaited) : heed signal watch = (.ok (), watch) := by
  have got : (get : Reaction Watch) watch = (.ok watch, watch) := rfl
  rw [heed, bind_apply, got]
  dsimp only
  rw [if_neg fun awaits => came (List.contains_iff_mem.mp awaits)]
  rfl

theorem ending_shutDown (watch : Watch) :
    ∃ isOver, (shutDown watch).2.ending = (watch.awaited, watch.endings, isOver) ∧
      ((shutDown watch).1 = .ok () → isOver = true) := by
  have got : (get : Reaction Watch) watch = (.ok watch, watch) := rfl
  rw [shutDown, bind_apply, got]
  dsimp only
  cases watch.obstacle with
  | none => exact ⟨true, rfl, fun _ => rfl⟩
  | some message =>
      have same : (say .error ("Failed to close watcher: " ++ message) watch).2.ending = watch.ending := rfl
      dsimp only
      rw [bind_apply]
      generalize say .error ("Failed to close watcher: " ++ message) watch = outcome at same ⊢
      obtain ⟨failure | _, told⟩ := outcome
      · exact ⟨watch.isOver, same, fun done => by cases done⟩
      · obtain ⟨awaited, rest⟩ := Prod.mk.inj same
        exact ⟨true, Prod.ext awaited (Prod.ext (Prod.mk.inj rest).1 rfl), fun _ => rfl⟩

/-- The end is requested at most once for a signal. -/
theorem ending_heed {signal : Signal} (awaits : signal ∈ watch.awaited) :
    ∃ endings isOver, (heed signal watch).2.ending = (watch.awaited.filter (· ≠ signal), endings, isOver) ∧
      endings ≤ watch.endings + 1 ∧
      ((heed signal watch).1 = .ok () → endings = watch.endings + 1 ∧ isOver = true) := by
  rw [heed_of_mem awaits]
  have same : (say .info "\nShutting down..." (watch.without signal)).2.ending =
      (watch.awaited.filter (· ≠ signal), watch.endings, watch.isOver) := rfl
  generalize say .info "\nShutting down..." (watch.without signal) = outcome at same ⊢
  obtain ⟨failure | _, told⟩ := outcome
  · exact ⟨watch.endings, watch.isOver, same, Nat.le_succ _, fun done => by cases done⟩
  · obtain ⟨awaited, rest⟩ := Prod.mk.inj same
    obtain ⟨endings, -⟩ := Prod.mk.inj rest
    obtain ⟨isOver, kept, whenDone⟩ := ending_shutDown { told with endings := told.endings + 1 }
    refine ⟨watch.endings + 1, isOver, kept.trans ?_, Nat.le_refl _, fun done => ⟨rfl, whenDone done⟩⟩
    exact congrArg₂ (fun awaited endings => (awaited, endings + 1, isOver)) awaited endings

/-- The signals among events. -/
def signals (events : List WatchEvent) : List Signal :=
  events.filterMap fun
    | .signalled signal => some signal
    | _ => none

theorem signals_append (front back : List WatchEvent) : signals (front ++ back) = signals front ++ signals back :=
  List.filterMap_append

/-- What signals have ended. A signal is heeded when it comes for the first time. -/
structure Ends (logFile : Option Text) (signals : List Signal) (watch : Watch) : Prop where
  awaited : watch.awaited = [Signal.interrupt, .terminate].filter (· ∉ signals)
  endings : watch.endings + watch.awaited.length ≤ 2
  unlogged : (∀ path ∈ logFile, path = []) →
    watch.endings + watch.awaited.length = 2 ∧ (signals ≠ [] → watch.isOver = true)

theorem Ends.of_ending_eq {before after : Watch} {signals : List Signal} (ends : Ends logFile signals before)
    (same : after.ending = before.ending) : Ends logFile signals after := by
  obtain ⟨awaited, rest⟩ := Prod.mk.inj same
  obtain ⟨endings, isOver⟩ := Prod.mk.inj rest
  constructor
  · exact awaited.trans ends.awaited
  · rw [awaited, endings]
    exact ends.endings
  · rw [awaited, endings, isOver]
    exact ends.unlogged

theorem Ends.mem_awaited_iff {came : List Signal} {signal : Signal} (ends : Ends logFile came watch) :
    signal ∈ watch.awaited ↔ signal ∉ came := by
  rw [ends.awaited, List.mem_filter, decide_eq_true_iff]
  exact and_iff_right (by cases signal <;> decide)

theorem Ends.length_filter_ne {came : List Signal} {signal : Signal} (ends : Ends logFile came watch)
    (awaits : signal ∈ watch.awaited) :
    (watch.awaited.filter (· ≠ signal)).length + 1 = watch.awaited.length := by
  have distinct : watch.awaited.Nodup := by
    rw [ends.awaited]
    exact List.Pairwise.filter _ (by decide)
  have erased : watch.awaited.filter (· ≠ signal) = watch.awaited.erase signal := by
    rw [distinct.erase_eq_filter]
    exact List.filter_congr fun other _ => by rw [bne, Bool.beq_eq_decide_eq, decide_not]
  rw [erased, List.length_erase_of_mem awaits, Nat.sub_add_cancel (List.length_pos_of_mem awaits)]

theorem ends_heed_again {came : List Signal} {signal : Signal} (again : signal ∈ came)
    (ends : Ends logFile came watch) : Ends logFile (came ++ [signal]) (heed signal watch).2 := by
  have same : ∀ other, other ∈ came ++ [signal] ↔ other ∈ came := by
    intro other
    rw [List.mem_append, List.mem_singleton, or_iff_left_of_imp]
    rintro rfl
    exact again
  have unawaited : signal ∉ watch.awaited := fun awaits => ends.mem_awaited_iff.mp awaits again
  rw [heed_of_notMem unawaited]
  refine ⟨?_, ends.endings, fun unlogged => ?_⟩
  · simp only [same]
    exact ends.awaited
  · obtain ⟨requested, ended⟩ := ends.unlogged unlogged
    exact ⟨requested, fun _ => ended (List.ne_nil_of_mem again)⟩

theorem ends_heed_first {came : List Signal} {signal : Signal} (first : signal ∉ came)
    (isOpen : watch.IsOpen project logFile) (ends : Ends logFile came watch) :
    Ends logFile (came ++ [signal]) (heed signal watch).2 := by
  have awaits : signal ∈ watch.awaited := ends.mem_awaited_iff.mpr first
  have fewer := ends.length_filter_ne awaits
  obtain ⟨endings, isOver, ending, atMost, whenDone⟩ := ending_heed awaits
  obtain ⟨awaited, rest⟩ := Prod.mk.inj ending
  obtain ⟨requested, ended⟩ := Prod.mk.inj rest
  refine ⟨?_, ?_, fun unlogged => ?_⟩
  · rw [awaited, ends.awaited, List.filter_filter]
    refine List.filter_congr fun other _ => ?_
    simp [and_comm]
  · have before := ends.endings
    rw [awaited, requested]
    omega
  · have done : (heed signal watch).1 = .ok () :=
      @react_of_unlogged _ _ unlogged (.signalled signal) (fun action same => by cases same) watch isOpen
    obtain ⟨once, closed⟩ := whenDone done
    have before := (ends.unlogged unlogged).1
    rw [awaited, requested, ended, once]
    exact ⟨by omega, fun _ => closed⟩

theorem isOpen_behind (isOpen : watch.IsOpen project logFile) (events : List WatchEvent) :
    (watch.behind checks events).IsOpen project logFile := by
  induction events generalizing watch with
  | nil => exact isOpen
  | cons event rest ih =>
      have next : (watch.turn checks event).behind.IsOpen project logFile :=
        @isOpen_react project logFile event (watch.turn checks event).watch isOpen
      exact ih next

theorem ends_behind (isOpen : watch.IsOpen project logFile)
    (begins : watch.ending = ([.interrupt, .terminate], 0, false)) (events : List WatchEvent) :
    Ends logFile (signals events) (watch.behind checks events) := by
  induction events using List.reverseRecOn with
  | nil =>
      obtain ⟨awaited, rest⟩ := Prod.mk.inj begins
      have both : watch.endings + watch.awaited.length = 2 := by rw [awaited, (Prod.mk.inj rest).1]; rfl
      exact ⟨awaited, Nat.le_of_eq both, fun _ => ⟨both, fun some => absurd rfl some⟩⟩
  | append_singleton front event ih =>
      rw [behind_append, signals_append]
      by_cases signalled : ∃ signal, event = .signalled signal
      · obtain ⟨signal, rfl⟩ := signalled
        let turn := (watch.behind checks front).turn checks (.signalled signal)
        have turnIsOpen : turn.watch.IsOpen project logFile := isOpen_behind isOpen front
        have turnEnds : Ends logFile (signals front) turn.watch := ih.of_ending_eq rfl
        by_cases again : signal ∈ signals front
        · exact ends_heed_again again turnEnds
        · exact ends_heed_first again turnIsOpen turnEnds
      · have other : ∀ signal, event ≠ .signalled signal := fun signal same => signalled ⟨signal, same⟩
        have nothing : signals [event] = [] := by
          cases event with
          | signalled signal => exact absurd rfl (other signal)
          | _ => rfl
        have kept := ((watch.behind checks front).turn checks event).ending_behind other
        rw [nothing, List.append_nil]
        exact (ih.of_ending_eq rfl).of_ending_eq kept

/-- The end is requested once for each of the signals that came, if their lines can be logged. -/
theorem Ends.requests {came : List Signal} (ends : Ends logFile came watch) :
    watch.endings ≤ ([Signal.interrupt, .terminate].filter (· ∈ came)).length ∧
      ((∀ path ∈ logFile, path = []) →
        watch.endings = ([Signal.interrupt, .terminate].filter (· ∈ came)).length) := by
  have parts : ([Signal.interrupt, .terminate].filter (· ∈ came)).length + watch.awaited.length = 2 := by
    have split := (List.filter_append_perm (fun signal => decide (signal ∈ came)) [.interrupt, .terminate]).length_eq
    simp only [List.length_append, ← decide_not, ← ends.awaited] at split
    exact split
  have atMost := ends.endings
  refine ⟨by omega, fun unlogged => ?_⟩
  have requested := (ends.unlogged unlogged).1
  omega

end Ending

/-- A signal that came before ends the program. -/
theorem eq_nil_of_came_before (isOpen : watch.IsOpen project logFile)
    (begins : watch.ending = ([.interrupt, .terminate], 0, false)) {events front back : List WatchEvent}
    {signal : Signal} (meets : watch.met checks events = front ++ .signalled signal :: back)
    (came : signal ∈ signals front) : back = [] := by
  refine eq_nil_of_met meets fun goesOn => ?_
  have awaits := (Bool.and_eq_true_iff.mp goesOn).1
  have ends : Ends logFile (signals front) (watch.behind checks front) := ends_behind isOpen begins front
  exact ends.mem_awaited_iff.mp (List.contains_iff_mem.mp awaits) came

/-- A signal keeps no recheck from coming, as long as the program goes on. Behind it there is a recheck whenever the
changes pause, those before the signal and those behind it, and if none come behind it, for the last one before it. Each
recheck is done as before. The end is requested for each of the signals that came, so it may be requested twice; a
signal that comes again ends the program. -/
theorem signal_ends_no_recheck (disk : Disk) (root : Text) (config : Config) (configFile : Option Text)
    (session : Session) (checks : Nat → Action) (events front back : List WatchEvent) (signal : Signal) {watch : Watch}
    (started :
      (start (Project.ofDirectory disk root config configFile).value (checks 0) session).1 = .ok watch)
    (meets : watch.met checks events = front ++ .signalled signal :: back) :
    let project := (Project.ofDirectory disk root config configFile).value
    let met := front ++ .signalled signal :: back
    let signalled := watch.behind checks (front ++ [.signalled signal])
    let later := signalled.turns checks back
    let after := watch.behind checks met
    let came := [Signal.interrupt, .terminate].filter (· ∈ signals met)
    (∀ time, time ∈ recheckTimes later ↔ signalled.timer.now < time ∧
      PausesAt (times ((watch.turns checks met).filter Turn.isDelivered)) after.timer.now time) ∧
    ((∀ turn ∈ later, turn.takesUp = false) → ∀ time, time ∈ recheckTimes later ↔
      signalled.timer.now < time ∧ ∃ change,
        (times ((watch.turns checks front).filter Turn.takesUp)).getLast? = some change ∧
        time = change + pause ∧ time ≤ after.timer.now) ∧
    (∀ turn ∈ later, turn.Obeys project session.logFile) ∧
    after.endings ≤ came.length ∧ (signal ∈ signals front → back = []) ∧
    ((∀ path ∈ session.logFile, path = []) →
      signalled.isOver = true ∧ after.endings = came.length ∧ ∀ turn ∈ later, turn.Succeeds project) := by
  intro project met signalled later after came
  obtain ⟨isOpen, control⟩ := of_start started
  have rests : watch.timer.pending = none := congrArg (·.1.pending) control
  have ahead : watch.timer.IsAhead := Debounce.isAhead_of_pending_eq_none rests
  have parts : met = (front ++ [.signalled signal]) ++ back := List.append_cons front _ back
  have isDue : ∀ time, time ∈ recheckTimes later ↔ signalled.timer.now < time ∧
      PausesAt (times ((watch.turns checks met).filter Turn.takesUp)) after.timer.now time := by
    intro time
    rw [← mem_recheckTimes_iff rests, parts]
    exact mem_recheckTimes_behind_iff ahead _ _
  have begins : watch.ending = ([.interrupt, .terminate], 0, false) := congrArg Prod.snd control
  have ends : Ends session.logFile (signals met) after := ends_behind isOpen begins met
  have signalledIsOpen : signalled.IsOpen project session.logFile := isOpen_behind isOpen _
  refine ⟨fun time => ?_, fun noChange time => ?_, fun turn mem => ?_, ends.requests.1,
    eq_nil_of_came_before isOpen begins meets, fun unlogged => ⟨?_, ?_, ?_⟩⟩
  · have pauses := @pausesAt_isDelivered_iff checks watch events time
    rw [meets] at pauses
    exact (isDue time).trans (and_congr_right fun _ => pauses.symm)
  · -- the signal is no change, so the last change is one before it, and all of them lie behind the clock
    have quiet : (watch.turns checks (front ++ [.signalled signal])).filter Turn.takesUp =
        (watch.turns checks front).filter Turn.takesUp := by
      rw [turns_append, List.filter_append]
      exact List.append_nil _
    have none : later.filter Turn.takesUp = [] :=
      List.filter_eq_nil_iff.mpr fun turn mem => Bool.eq_false_iff.mp (noChange turn mem)
    have same : (watch.turns checks met).filter Turn.takesUp = (watch.turns checks front).filter Turn.takesUp := by
      rw [parts, turns_append, List.filter_append, quiet, none, List.append_nil]
    rw [isDue, same]
    refine and_congr_right fun behind => pausesAt_iff_of_lt fun change mem => ?_
    rw [← quiet] at mem
    exact Nat.lt_of_le_of_lt (le_now_of_mem_times mem) behind
  · exact Turn.obeys (isOpen_of_mem_turns back signalledIsOpen turn mem)
  · have first : Ends session.logFile _ signalled := ends_behind isOpen begins _
    refine (first.unlogged unlogged).2 ?_
    rw [signals_append]
    exact List.append_ne_nil_of_right_ne_nil _ (List.cons_ne_nil _ _)
  · exact ends.requests.2 unlogged
  · exact fun turn mem => Turn.succeeds (isOpen_of_mem_turns back signalledIsOpen turn mem) unlogged

/-- A check was put off when the first signal came, the other signal comes behind it, and then the first one again,
which ends the program. -/
theorem signal_ends_no_recheck_put_off :
    let disk : Disk :=
      { root := .directory [("proj", .directory [("a.adoc", .file ":a: x\n")])]
        cwd := "/proj"
        sound := ⟨by decide⟩ }
    let project := (Project.ofDirectory disk "/proj" .default none).value
    let session := Session.start disk .empty "now"
    let checks : Nat → Action := fun _ => .refresh
    let change : WatchEvent := .changed "change" "/proj/a.adoc"
    let back : List WatchEvent := [.passed 200, .signalled .terminate, .signalled .interrupt]
    let events : List WatchEvent := change :: .signalled .interrupt :: back ++ [.passed 200]
    ∃ watch, (start project (checks 0) session).1 = .ok watch ∧
      watch.met checks events = [change] ++ .signalled .interrupt :: back ∧
      200 ∈ recheckTimes ((watch.behind checks [change, .signalled .interrupt]).turns checks back) ∧
      (watch.behind checks [change, .signalled .interrupt]).isOver = true ∧
      (watch.behind checks (change :: .signalled .interrupt :: back)).endings = 2 := by
  intro disk project session checks change back events
  have started : ∃ watch, (start project (checks 0) session).1 = .ok watch := ⟨_, rfl⟩
  obtain ⟨watch, started⟩ := started
  have meets : watch.met checks events = [change] ++ .signalled .interrupt :: back := by
    have length : (watch.met checks events).length = 5 := by
      cases started
      decide +kernel
    exact (List.prefix_iff_eq_take.mp (isPrefix_met watch events)).trans (congrArg events.take length)
  obtain ⟨due, _, _, _, _, unlogged⟩ :=
    signal_ends_no_recheck disk "/proj" .default none session checks events [change] back .interrupt started meets
  have noFile : ∀ path ∈ session.logFile, path = [] := fun _ none => absurd none (Option.not_mem_none _)
  obtain ⟨isOver, requests, _⟩ := unlogged noFile
  refine ⟨watch, started, meets, (due 200).mpr ?_, isOver, requests⟩
  cases started
  exact ⟨by decide +kernel, [], 0, [], by decide +kernel, rfl, by decide +kernel, by decide⟩

/-- Checks may run after a signal, and the end may be requested twice. -/
theorem check_may_run_after_signal :
    let disk : Disk :=
      { root := .directory [("proj", .directory [("a.adoc", .file ":a: x\n")])]
        cwd := "/proj"
        sound := ⟨by decide⟩ }
    let project := (Project.ofDirectory disk "/proj" .default none).value
    let checks : Nat → Action := fun _ => .refresh
    ∃ watch, (start project (checks 0) (.start disk .empty "now")).1 = .ok watch ∧
      (¬ ∀ events front signal back, watch.met checks events = front ++ .signalled signal :: back →
        (watch.behind checks (front ++ .signalled signal :: back)).checks =
          (watch.behind checks (front ++ [.signalled signal])).checks) ∧
      ¬ ∀ events, (watch.behind checks (watch.met checks events)).endings ≤ 1 := by
  intro disk project checks
  refine ⟨_, rfl, fun ended => ?_, fun once => ?_⟩
  · let events : List WatchEvent := [.changed "change" "/proj/a.adoc", .signalled .interrupt, .passed 200]
    have same := ended events [.changed "change" "/proj/a.adoc"] .interrupt [.passed 200]
      ((List.prefix_iff_eq_take.mp (isPrefix_met _ events)).trans (congrArg events.take (by decide +kernel : _ = 3)))
    exact absurd same (by decide +kernel)
  · exact absurd (once [.signalled .interrupt, .signalled .terminate]) (by decide +kernel)

end Crossref.Watch

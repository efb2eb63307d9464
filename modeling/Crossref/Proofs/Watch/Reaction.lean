import Crossref.Proofs.Workspace
import Crossref.Watch

/-! What a watch does in reaction to an event. Whatever a check does, it leaves a project that is open without a
read action under way, and nothing but a line that cannot be logged makes a reaction fail. -/

set_option autoImplicit false

namespace Crossref

/-- A failure to write to a log file. -/
def Failure.IsUnwritten (logFile : Option Text) (failure : Failure) : Prop :=
  (∃ error, failure = .log error) ∧ ∃ path ∈ logFile, path ≠ []

namespace Reaction

variable {α β : Type} {holds : Watch → Prop} {fails : Failure → Prop}

/-- A reaction keeps a property of the watch and fails in certain ways only. -/
def Ensures (holds : Watch → Prop) (fails : Failure → Prop) (reaction : Reaction α) : Prop :=
  ∀ watch, holds watch →
    holds (reaction watch).2 ∧ ∀ failure, (reaction watch).1 = .error failure → fails failure

theorem ensures_pure (value : α) : Ensures holds fails (pure value : Reaction α) :=
  fun _ held => ⟨held, fun _ failed => by cases failed⟩

theorem ensures_modify {change : Watch → Watch} (keeps : ∀ watch, holds watch → holds (change watch)) :
    Ensures holds fails (modify change : Reaction Unit) :=
  fun watch held => ⟨keeps watch held, fun _ failed => by cases failed⟩

theorem ensures_get : Ensures holds fails (get : Reaction Watch) :=
  fun _ held => ⟨held, fun _ failed => by cases failed⟩

theorem ensures_bind {first : Reaction α} {next : α → Reaction β} (begins : Ensures holds fails first)
    (goesOn : ∀ value, Ensures holds fails (next value)) : Ensures holds fails (first >>= next) := by
  intro watch held
  obtain ⟨kept, failing⟩ := begins watch held
  rw [bind_apply]
  cases done : first watch with
  | mk result behind =>
      rw [done] at kept failing
      cases result with
      | ok value => exact goesOn value behind kept
      | error failure => exact ⟨kept, fun other same => failing other (congrArg _ (Except.error.inj same))⟩

theorem ensures_tryCatch {first : Reaction α} {handle : Failure → Reaction α}
    (tried : Ensures holds (fun _ => True) first) (handled : ∀ failure, Ensures holds fails (handle failure)) :
    Ensures holds fails (tryCatch first handle) := by
  intro watch held
  have kept := (tried watch held).1
  rw [tryCatch_apply]
  cases done : first watch with
  | mk result behind =>
      rw [done] at kept
      cases result with
      | ok value => exact ⟨kept, fun _ failed => by cases failed⟩
      | error failure => exact handled failure behind kept

end Reaction

namespace Watch

open Reaction

theorem inWorkspace_apply {α : Type} (work : Work α) (watch : Watch) :
    inWorkspace work watch =
      ((work watch.workspace).1, { watch with workspace := (work watch.workspace).2 }) := rfl

theorem ensures_inWorkspace {α : Type} {holds : Watch → Prop} {fails : Failure → Prop} {work : Work α}
    (keeps : ∀ watch, holds watch → holds { watch with workspace := (work watch.workspace).2 })
    (failing : ∀ watch, holds watch →
      ∀ failure, (work watch.workspace).1 = .error failure → fails failure) :
    Ensures holds fails (inWorkspace work) := fun watch held => ⟨keeps watch held, failing watch held⟩

/-- The open project of a watch: between its reactions no read action is under way. -/
def IsOpen (project : Project) (logFile : Option Text) (watch : Watch) : Prop :=
  ∃ taken, watch.workspace.Stands project logFile taken 0

variable {project : Project} {logFile : Option Text}

theorem say_apply (level : Level) (message : Text) (watch : Watch) :
    say level message watch =
      let (result, session) := Job.deliver ⟨level, message⟩ watch.workspace.session
      (result, { watch with workspace := { watch.workspace with session } }) := rfl

/-- A line changes nothing but the session. -/
theorem watch_say (level : Level) (message : Text) (watch : Watch) :
    ∃ session, (say level message watch).2 =
      { watch with workspace := { watch.workspace with session } } := ⟨_, rfl⟩

theorem ensures_say (level : Level) (message : Text) :
    Ensures (IsOpen project logFile) (Failure.IsUnwritten logFile) (say level message) := by
  rintro watch ⟨taken, stands⟩
  rw [say_apply]
  rcases Job.deliver_cases ⟨level, message⟩ watch.workspace.session with
    ⟨behind, done, same⟩ | ⟨error, behind, lost, same, file⟩
  · rw [done]
    exact ⟨⟨taken, stands.project, same.trans stands.logFile⟩, fun _ failed => by cases failed⟩
  · rw [lost]
    refine ⟨⟨taken, stands.project, same.trans stands.logFile⟩, fun failure failed => ?_⟩
    cases failed
    exact ⟨⟨error, rfl⟩, stands.logFile ▸ file⟩

/-- Whatever an action does, and however it ends, it leaves the project open. -/
theorem ensures_action (action : Action) :
    Ensures (IsOpen project logFile) (fun _ => True) (inWorkspace action.run) :=
  ensures_inWorkspace (fun _ held => held.elim fun _ stands => ⟨_, (action.follow_moments stands).2⟩)
    fun _ _ _ _ => trivial

/-- What lines and actions keep, and the count of the checks does not touch, is kept by a recheck. -/
theorem ensures_recheck_of {holds : Watch → Prop} {fails : Failure → Prop}
    (told : ∀ level message, Ensures holds fails (say level message))
    (done : ∀ action : Action, Ensures holds (fun _ => True) (inWorkspace action.run))
    (counted : ∀ watch, holds watch → holds { watch with checks := watch.checks + 1 }) :
    Ensures holds fails recheck := by
  have tried : Ensures holds (fun _ => True) refreshAndCheck :=
    ensures_bind (done .refresh) fun _ =>
      ensures_bind (ensures_modify counted) fun _ => ensures_bind ensures_get fun watch => done watch.check
  exact ensures_bind (told _ _) fun _ =>
    ensures_bind (ensures_tryCatch tried fun _ => ensures_bind (told _ _) fun _ => told _ _) fun _ => told _ _

/-- A failure of the check does not go beyond the recheck. -/
theorem ensures_recheck : Ensures (IsOpen project logFile) (Failure.IsUnwritten logFile) recheck :=
  ensures_recheck_of ensures_say ensures_action fun _ held => held

/-- What a recheck does in the end: it tells of a failure, and that the watch goes on. -/
def closing : Except Failure Unit → Reaction Unit
  | .ok _ => say .info idleMessage
  | .error failure => do
    say .error "Check failed:"
    say .error failure.message
    say .info idleMessage

theorem refreshAndCheck_apply (watch : Watch) :
    refreshAndCheck watch =
      match Work.refresh watch.workspace with
      | (.ok _, opened) =>
        ((watch.check.run opened).1,
          { watch with workspace := (watch.check.run opened).2, checks := watch.checks + 1 })
      | (.error failure, workspace) => (.error failure, { watch with workspace }) := by
  rw [refreshAndCheck, bind_apply, inWorkspace_apply]
  rcases Work.refresh watch.workspace with ⟨_ | _, opened⟩ <;> rfl

theorem recheck_apply (watch : Watch) :
    recheck watch =
      match say .info separator watch with
      | (.ok _, told) => closing (refreshAndCheck told).1 (refreshAndCheck told).2
      | (.error failure, told) => (.error failure, told) := by
  rw [recheck, bind_apply]
  rcases say .info separator watch with ⟨_ | _, told⟩
  · rfl
  · dsimp only
    rw [bind_apply, tryCatch_apply]
    rcases refreshAndCheck told with ⟨failure | _, behind⟩
    · simp only [closing, bind_apply]
      rcases say .error "Check failed:" behind with ⟨_ | _, behind⟩ <;> rfl
    · rfl

/-- A recheck, step by step. The check begins in a workspace whose index is that of the disk. There is none if
the line before it, or a warning about a document that cannot be read, cannot be logged. -/
inductive Rechecked (project : Project) (logFile : Option Text) (before : Watch) :
    Except Failure Unit × Watch → Prop
  | unannounced {failure : Failure} {told : Watch} :
      say .info separator before = (.error failure, told) → failure.IsUnwritten logFile →
      Rechecked project logFile before (.error failure, told)
  | unrefreshed {failure : Failure} {told : Watch} {session : Session} :
      say .info separator before = (.ok (), told) →
      Work.refresh told.workspace = (.error failure, { told.workspace with session }) →
      failure.IsUnwritten logFile →
      (∃ path ∈ Project.findDocuments told.workspace.session.disk told.workspace.project.root
        told.workspace.project.config, told.workspace.session.disk.readText? path = none) →
      Rechecked project logFile before
        (closing (.error failure) { told with workspace := { told.workspace with session } })
  | checked {told : Watch} {opened : Workspace} :
      say .info separator before = (.ok (), told) → Work.refresh told.workspace = (.ok (), opened) →
      opened.project = project.snapshot told.workspace.session.disk 0 →
      Rechecked project logFile before
        (closing (before.check.run opened).1
          { told with workspace := (before.check.run opened).2, checks := before.checks + 1 })

theorem rechecked_recheck {before : Watch} (isOpen : before.IsOpen project logFile) :
    Rechecked project logFile before (recheck before) := by
  rw [recheck_apply]
  obtain ⟨session, same⟩ := watch_say .info separator before
  obtain ⟨⟨taken, stands⟩, failing⟩ := ensures_say .info separator before isOpen
  cases announced : say .info separator before with
  | mk result told =>
      rw [announced] at same stands failing
      cases result with
      | error failure => exact .unannounced announced (failing failure rfl)
      | ok _ =>
          subst same
          dsimp only at stands ⊢
          rw [refreshAndCheck_apply]
          have idle : before.workspace.project.readDepth = 0 := congrArg Project.readDepth stands.project
          have refreshed := @Work.refresh_of_idle ⟨before.workspace.project, session⟩ idle
          dsimp only at refreshed
          rcases Job.settle_cases (before.workspace.project.rebuild session.disk) session with
            ⟨behind, done, _⟩ | ⟨error, behind, lost, _, told, file⟩
          · rw [done, Project.value_rebuild, idle] at refreshed
            rw [refreshed]
            exact .checked announced refreshed (congrArg (·.snapshot session.disk 0) stands.project)
          · rw [lost] at refreshed
            rw [refreshed]
            have unwritten : (Failure.log error).IsUnwritten logFile := ⟨⟨error, rfl⟩, stands.logFile ▸ file⟩
            have outcome : Rechecked project logFile before _ :=
              .unrefreshed announced refreshed unwritten (Project.unread_of_notices_rebuild told)
            exact outcome

section Unlogged

/-- What lines leave as it is where they are only shown. -/
def unshown (watch : Watch) : Project × Disk × Nat :=
  (watch.workspace.project, watch.workspace.session.disk, watch.checks)

/-- Whether lines are only shown, and the rest of the watch is as given. -/
structure Rests (logFile : Option Text) (rest : Project × Disk × Nat) (watch : Watch) : Prop where
  logFile : watch.workspace.session.logFile = logFile
  rest : watch.unshown = rest

variable {rest : Project × Disk × Nat} (unlogged : ∀ path ∈ logFile, path = [])

include unlogged

theorem not_isUnwritten (failure : Failure) : ¬ failure.IsUnwritten logFile := by
  rintro ⟨_, path, mem, nonempty⟩
  exact nonempty (unlogged path mem)

theorem ensures_say_of_unlogged (level : Level) (message : Text) :
    Ensures (Rests logFile rest) (fun _ => False) (say level message) := by
  rintro watch ⟨rfl, rfl⟩
  rw [say_apply, Job.deliver_of_unlogged unlogged]
  refine ⟨⟨Job.logFile_announce _ _, ?_⟩, fun _ failed => by cases failed⟩
  rw [unshown, Job.disk_announce]
  rfl

theorem ensures_closing_of_unlogged (result : Except Failure Unit) :
    Ensures (Rests logFile rest) (fun _ => False) (closing result) := by
  cases result with
  | ok _ => exact ensures_say_of_unlogged unlogged _ _
  | error failure =>
      exact ensures_bind (ensures_say_of_unlogged unlogged _ _) fun _ =>
        ensures_bind (ensures_say_of_unlogged unlogged _ _) fun _ => ensures_say_of_unlogged unlogged _ _

/-- Without a log file a recheck succeeds. The check begins with the index of the disk, and what it does to the
project and to the disk is all that is done to them. -/
theorem recheck_of_unlogged {before : Watch} (isOpen : before.IsOpen project logFile) :
    ∃ opened : Workspace,
      opened.project = project.snapshot before.workspace.session.disk 0 ∧
      opened.session.disk = before.workspace.session.disk ∧
      (recheck before).1 = .ok () ∧
      (recheck before).2.unshown =
        ((before.check.run opened).2.project, (before.check.run opened).2.session.disk, before.checks + 1) := by
  have logs : before.workspace.session.logFile = logFile := isOpen.elim fun _ stands => stands.logFile
  have begins : Rests logFile before.unshown before := ⟨logs, rfl⟩
  have outcome := rechecked_recheck isOpen
  generalize recheck before = after at outcome ⊢
  cases outcome with
  | unannounced _ unwritten => exact absurd unwritten (not_isUnwritten unlogged _)
  | unrefreshed _ _ unwritten => exact absurd unwritten (not_isUnwritten unlogged _)
  | @checked told opened announced refreshed renewed =>
      obtain ⟨⟨_, same⟩, _⟩ := announced ▸ ensures_say_of_unlogged unlogged .info separator before begins
      obtain ⟨toldIsOpen, _⟩ := announced ▸ ensures_say .info separator before isOpen
      have disk : told.workspace.session.disk = before.workspace.session.disk := congrArg (·.2.1) same
      have isOpened : IsOpen project logFile { told with workspace := opened } := by
        have done : IsOpen project logFile { told with workspace := (Work.refresh told.workspace).2 } :=
          (ensures_action .refresh told toldIsOpen).1
        rwa [refreshed] at done
      have openedDisk : opened.session.disk = told.workspace.session.disk := by
        obtain ⟨taken, stands⟩ := toldIsOpen
        have quiet : ∀ path ∈ told.workspace.session.logFile, path = [] := stands.logFile ▸ unlogged
        obtain ⟨behind, done, kept⟩ :=
          Job.settle_of_unlogged quiet (told.workspace.project.rebuild told.workspace.session.disk)
        have idle : told.workspace.project.readDepth = 0 := congrArg Project.readDepth stands.project
        rw [Work.refresh_of_idle idle, done] at refreshed
        cases refreshed
        exact kept
      obtain ⟨_, ran⟩ := (ensures_action before.check _ isOpened).1
      have ends := ensures_closing_of_unlogged unlogged (before.check.run opened).1
        { told with workspace := (before.check.run opened).2, checks := before.checks + 1 }
        ⟨ran.logFile, rfl⟩
      refine ⟨opened, disk ▸ renewed, openedDisk.trans disk, ?_, ends.1.rest⟩
      cases done : (closing (before.check.run opened).1
        { told with workspace := (before.check.run opened).2, checks := before.checks + 1 }).1 with
      | ok _ => rfl
      | error failure => exact absurd (ends.2 failure done) id

end Unlogged

section Event

variable {holds : Watch → Prop} {fails : Failure → Prop}

/-- A change that is ignored leads to nothing, and the others put the next check off, if their line can be logged. -/
theorem change_cases (name path : Text) (watch : Watch) :
    (watch.ignores path = true ∧ change name path watch = (.ok (), watch)) ∨
    (watch.ignores path = false ∧ ∃ session,
      let told : Watch := { watch with workspace := { watch.workspace with session } }
      change name path watch = (.ok (), { told with timer := watch.timer.call pause () }) ∨
        ∃ failure, change name path watch = (.error failure, told)) := by
  have got : (get : Reaction Watch) watch = (.ok watch, watch) := rfl
  rw [change, bind_apply, got]
  dsimp only
  cases watch.ignores path with
  | true => exact .inl ⟨rfl, rfl⟩
  | false =>
      obtain ⟨session, same⟩ := watch_say .detail (name ++ ": " ++ path) watch
      refine .inr ⟨rfl, session, ?_⟩
      rw [if_neg Bool.false_ne_true, bind_apply]
      generalize say .detail (name ++ ": " ++ path) watch = outcome at same ⊢
      obtain ⟨failure | _, told⟩ := outcome
      · subst same
        exact .inr ⟨failure, rfl⟩
      · subst same
        exact .inl rfl

theorem pass_apply (duration : Nat) (watch : Watch) :
    pass duration watch =
      if (watch.timer.advance duration).1.isSome then
        recheck { watch with timer := (watch.timer.advance duration).2 }
      else (.ok (), { watch with timer := (watch.timer.advance duration).2 }) := by
  have got : (get : Reaction Watch) watch = (.ok watch, watch) := rfl
  rw [pass, bind_apply, got]
  dsimp only
  rw [bind_apply]
  cases (watch.timer.advance duration).1.isSome <;> rfl

theorem ensures_heed (told : ∀ level message, Ensures holds fails (say level message))
    (moved : ∀ watch awaited endings isOver, holds watch → holds { watch with awaited, endings, isOver })
    (signal : Signal) : Ensures holds fails (heed signal) := by
  refine ensures_bind ensures_get fun watch => ?_
  dsimp only
  split
  · refine ensures_bind (ensures_modify fun watch => moved watch _ _ _) fun _ => ?_
    refine ensures_bind (told _ _) fun _ => ?_
    refine ensures_bind (ensures_modify fun watch => moved watch _ _ _) fun _ => ?_
    refine ensures_bind ensures_get fun watch => ?_
    split
    · exact ensures_bind (told _ _) fun _ => ensures_modify fun watch => moved watch _ _ _
    · exact ensures_modify fun watch => moved watch _ _ _
  · exact ensures_pure _

/-- What lines keep, and only depends on the workspace and its checks, is kept in reaction to every event that the
watch is told about, as far as a recheck keeps it. -/
theorem react_of (told : ∀ level message, Ensures holds fails (say level message))
    (moved : ∀ watch timer awaited obstacle endings isOver, holds watch →
      holds { watch with timer, awaited, obstacle, endings, isOver })
    {event : WatchEvent} (seen : ∀ action, event ≠ .unseen action) {watch : Watch}
    (rechecks : ∀ duration, event = .passed duration → (watch.timer.advance duration).1.isSome →
      Ensures holds fails recheck) (held : holds watch) :
    holds (react event watch).2 ∧ ∀ failure, (react event watch).1 = .error failure → fails failure := by
  cases event with
  | unseen action => exact absurd rfl (seen action)
  | changed name path =>
      have changing : Ensures holds fails (change name path) := by
        refine ensures_bind ensures_get fun watch => ?_
        split
        · exact ensures_pure _
        · exact ensures_bind (told _ _) fun _ => ensures_modify fun watch => moved watch _ _ _ _ _
      exact changing watch held
  | passed duration =>
      rw [react, pass_apply]
      split
      · next due => exact rechecks duration rfl due _ (moved watch _ _ _ _ _ held)
      · exact ensures_pure () _ (moved watch _ _ _ _ _ held)
  | failed message => exact told _ _ watch held
  | stuck message => exact ensures_modify (fun watch => moved watch _ _ _ _ _) watch held
  | signalled signal => exact ensures_heed told (fun watch _ _ _ => moved watch _ _ _ _ _) signal watch held

theorem ensures_react {event : WatchEvent} (seen : ∀ action, event ≠ .unseen action) :
    Ensures (IsOpen project logFile) (Failure.IsUnwritten logFile) (react event) := fun _ =>
  react_of ensures_say (fun _ _ _ _ _ _ held => held) seen fun _ _ _ => ensures_recheck

theorem react_of_unlogged (unlogged : ∀ path ∈ logFile, path = []) {event : WatchEvent}
    (seen : ∀ action, event ≠ .unseen action) {watch : Watch} (isOpen : watch.IsOpen project logFile) :
    (react event watch).1 = .ok () := by
  cases result : (react event watch).1 with
  | ok _ => rfl
  | error failure =>
      exact absurd ((ensures_react seen watch isOpen).2 failure result) (not_isUnwritten unlogged failure)

/-- Whatever happens, the project stays open. -/
theorem isOpen_react (event : WatchEvent) {watch : Watch} (isOpen : watch.IsOpen project logFile) :
    (react event watch).2.IsOpen project logFile := by
  by_cases unseen : ∃ action, event = .unseen action
  · obtain ⟨action, rfl⟩ := unseen
    exact (ensures_action action watch isOpen).1
  · exact (ensures_react (fun action same => unseen ⟨action, same⟩) watch isOpen).1

end Event

end Watch

end Crossref

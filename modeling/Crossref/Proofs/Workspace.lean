import Crossref.Workspace.Action

/-! The index of an open project is a snapshot. Whatever is done in a workspace, in read actions of any
depth and with failures at any of them, the index is that of the disk at the last refresh that succeeded, and
only refreshes outside of read actions succeed. -/

set_option autoImplicit false

namespace Crossref

theorem bind_apply {σ α β : Type} (first : ExceptT Failure (StateM σ) α)
    (next : α → ExceptT Failure (StateM σ) β) (state : σ) :
    (first >>= next) state =
      match first state with
      | (.ok value, behind) => next value behind
      | (.error failure, behind) => (.error failure, behind) := by
  change (match first state with | (result, behind) => (ExceptT.bindCont next result) behind) = _
  rcases first state with ⟨_ | _, behind⟩ <;> rfl

theorem tryCatch_apply {σ α : Type} (first : ExceptT Failure (StateM σ) α)
    (handle : Failure → ExceptT Failure (StateM σ) α) (state : σ) :
    tryCatch first handle state =
      match first state with
      | (.ok value, behind) => (.ok value, behind)
      | (.error failure, behind) => handle failure behind := by
  cases done : first state with
  | mk result behind =>
      simp only [tryCatch, tryCatchThe, MonadExceptOf.tryCatch, ExceptT.tryCatch, ExceptT.mk, bind,
        StateT.bind, done]
      cases result <;> rfl

namespace Job

variable {α : Type}

theorem logFile_announce (notice : Notice) (session : Session) :
    (session.announce notice).logFile = session.logFile := by
  unfold Session.announce
  split <;> rfl

theorem log_cases (notice : Notice) (session : Session) :
    (∃ behind, session.log notice = .ok behind ∧ behind.logFile = session.logFile) ∨
      ∃ error, session.log notice = .error error ∧ ∃ path ∈ session.logFile, path ≠ [] := by
  unfold Session.log
  split
  · exact .inl ⟨session, rfl, rfl⟩
  · next path kept =>
      split
      · exact .inl ⟨_, rfl, rfl⟩
      · obtain ⟨mem, nonempty⟩ := Option.filter_eq_some_iff.mp kept
        exact .inr ⟨_, rfl, path, mem, by simpa using nonempty⟩

/-- A notice is lost only if it cannot be added to a log file. -/
theorem deliver_cases (notice : Notice) (session : Session) :
    (∃ behind, deliver notice session = (.ok (), behind) ∧ behind.logFile = session.logFile) ∨
      ∃ error behind, deliver notice session = (.error (Failure.log error), behind) ∧
        behind.logFile = session.logFile ∧ ∃ path ∈ session.logFile, path ≠ [] := by
  have announced : (modify (·.announce notice) : Job Unit) session = (.ok (), session.announce notice) := rfl
  have got : (get : Job Session) (session.announce notice) =
      (.ok (session.announce notice), session.announce notice) := rfl
  rw [deliver, bind_apply, announced]
  dsimp only
  rw [bind_apply, got]
  dsimp only
  rcases log_cases notice (session.announce notice) with ⟨behind, done, same⟩ | ⟨error, lost, file⟩
  · rw [done]
    exact .inl ⟨behind, rfl, same.trans (logFile_announce notice session)⟩
  · rw [lost]
    exact .inr ⟨error, _, rfl, logFile_announce notice session,
      logFile_announce notice session ▸ file⟩

theorem settle_cases (noted : Noted α) (session : Session) :
    (∃ behind, settle noted session = (.ok noted.value, behind) ∧ behind.logFile = session.logFile) ∨
      ∃ error behind, settle noted session = (.error (Failure.log error), behind) ∧
        behind.logFile = session.logFile ∧ noted.notices ≠ [] ∧ ∃ path ∈ session.logFile, path ≠ [] := by
  obtain ⟨value, notices⟩ := noted
  have told : ∀ session,
      (∃ behind, notices.forM deliver session = (.ok (), behind) ∧ behind.logFile = session.logFile) ∨
        ∃ error behind, notices.forM deliver session = (.error (Failure.log error), behind) ∧
          behind.logFile = session.logFile ∧ notices ≠ [] ∧ ∃ path ∈ session.logFile, path ≠ [] := by
    induction notices with
    | nil => exact fun session => .inl ⟨session, rfl, rfl⟩
    | cons notice rest ih =>
        intro session
        change (∃ behind, (deliver notice >>= fun _ => rest.forM deliver) session = _ ∧ _) ∨
          ∃ error behind, (deliver notice >>= fun _ => rest.forM deliver) session = _ ∧ _
        rw [bind_apply]
        rcases deliver_cases notice session with ⟨middle, done, same⟩ | ⟨error, behind, lost, same, file⟩
        · rw [done, ← same]
          rcases ih middle with told | ⟨error, behind, lost, kept, _, file⟩
          · exact .inl told
          · exact .inr ⟨error, behind, lost, kept, List.cons_ne_nil _ _, file⟩
        · rw [lost]
          exact .inr ⟨error, behind, rfl, same, List.cons_ne_nil _ _, file⟩
  rw [settle, bind_apply]
  rcases told session with ⟨behind, done, same⟩ | ⟨error, behind, lost, same, some, file⟩
  · rw [done]
    exact .inl ⟨behind, rfl, same⟩
  · rw [lost]
    exact .inr ⟨error, behind, rfl, same, some, file⟩

/-- Without a log file a notice is shown and nothing else. -/
theorem deliver_of_unlogged {session : Session} (unlogged : ∀ path ∈ session.logFile, path = [])
    (notice : Notice) : deliver notice session = (.ok (), session.announce notice) := by
  have announced : (modify (·.announce notice) : Job Unit) session = (.ok (), session.announce notice) := rfl
  have got : (get : Job Session) (session.announce notice) =
      (.ok (session.announce notice), session.announce notice) := rfl
  have noFile : (session.announce notice).logFile.filter (fun path => !path.isEmpty) = none := by
    rw [logFile_announce]
    exact Option.filter_eq_none_iff.mpr fun path mem => by simp [unlogged path mem]
  have written : (session.announce notice).log notice = .ok (session.announce notice) := by
    rw [Session.log, noFile]
  rw [deliver, bind_apply, announced]
  dsimp only
  rw [bind_apply, got]
  dsimp only
  rw [written]
  rfl

theorem disk_announce (notice : Notice) (session : Session) :
    (session.announce notice).disk = session.disk := by
  unfold Session.announce
  split <;> rfl

theorem settle_of_unlogged {session : Session} (unlogged : ∀ path ∈ session.logFile, path = [])
    (noted : Noted α) :
    ∃ behind, settle noted session = (.ok noted.value, behind) ∧ behind.disk = session.disk := by
  obtain ⟨value, notices⟩ := noted
  have told : ∃ behind, notices.forM deliver session = (.ok (), behind) ∧ behind.disk = session.disk := by
    induction notices generalizing session with
    | nil => exact ⟨session, rfl, rfl⟩
    | cons notice rest ih =>
        have unloggedBehind : ∀ path ∈ (session.announce notice).logFile, path = [] :=
          fun path mem => unlogged path (logFile_announce notice session ▸ mem)
        obtain ⟨behind, done, same⟩ := ih unloggedBehind
        refine ⟨behind, ?_, same.trans (disk_announce notice session)⟩
        change (deliver notice >>= fun _ => rest.forM deliver) session = _
        rw [bind_apply, deliver_of_unlogged unlogged]
        exact done
  obtain ⟨behind, done, same⟩ := told
  refine ⟨behind, ?_, same⟩
  rw [settle, bind_apply, done]
  rfl

end Job

namespace Project

/-- The documents that are found on a disk and can be read. -/
def documents (disk : Disk) (root : Text) (config : Config) : List Source :=
  (findDocuments disk root config).filterMap fun path =>
    (disk.readText? path).map fun text => ⟨path, text⟩

/-- The project with the index of a disk, during some number of read actions. -/
def snapshot (project : Project) (disk : Disk) (readDepth : Nat) : Project :=
  { project with index := .ofSources (documents disk project.root project.config), readDepth }

theorem readSources_spec (disk : Disk) (paths : List Text) :
    (readSources disk paths).value =
        (paths.filterMap fun path => (disk.readText? path).map fun text => ⟨path, text⟩) ∧
      ((readSources disk paths).notices ≠ [] → ∃ path ∈ paths, disk.readText? path = none) := by
  induction paths with
  | nil => exact ⟨rfl, fun told => absurd rfl told⟩
  | cons path rest ih =>
      obtain ⟨value, told⟩ := ih
      rw [readSources]
      cases read : disk.readText? path with
      | some text =>
          constructor
          · simp [read, value]
          · intro some
            obtain ⟨other, mem, unread⟩ := told (by simpa using some)
            exact ⟨other, List.mem_cons_of_mem _ mem, unread⟩
      | none =>
          constructor
          · simp [read, value]
          · exact fun _ => ⟨path, List.mem_cons_self, read⟩

theorem value_rebuild (project : Project) (disk : Disk) :
    (project.rebuild disk).value = project.snapshot disk project.readDepth := by
  have read := (readSources_spec disk (findDocuments disk project.root project.config)).1
  simp only [rebuild, buildIndex, Noted.value_bind, Noted.value_pure, read]
  rfl

theorem unread_of_notices_rebuild {project : Project} {disk : Disk}
    (told : (project.rebuild disk).notices ≠ []) :
    ∃ path ∈ findDocuments disk project.root project.config, disk.readText? path = none := by
  apply (readSources_spec disk (findDocuments disk project.root project.config)).2
  simpa [rebuild, buildIndex] using told

end Project

namespace Work

theorem project_changeDepth (change : Nat → Nat) (workspace : Workspace) :
    (changeDepth change workspace).project =
      { workspace.project with readDepth := change workspace.project.readDepth } := rfl

theorem ask_eq {α : Type} (question : Project → Disk → Noted α) (workspace : Workspace) :
    ask question workspace =
      ofJob (Job.settle (question workspace.project workspace.session.disk)) workspace := rfl

theorem refresh_of_idle {workspace : Workspace} (idle : workspace.project.readDepth = 0) :
    refresh workspace =
      match Job.settle (workspace.project.rebuild workspace.session.disk) workspace.session with
      | (.ok project, behind) => (.ok (), ⟨project, behind⟩)
      | (.error failure, behind) => (.error failure, ⟨workspace.project, behind⟩) := by
  change (if workspace.project.readDepth = 0 then _ else _ : Work Unit) workspace = _
  rw [if_pos idle, bind_apply, ask_eq, ofJob]
  rcases Job.settle (workspace.project.rebuild workspace.session.disk) workspace.session with
    ⟨_ | _, behind⟩ <;> rfl

/-- A refresh during a read action fails and keeps the project. -/
theorem refresh_of_reading {workspace : Workspace} (reading : 0 < workspace.project.readDepth) :
    ∃ failure session, refresh workspace = (.error failure, ⟨workspace.project, session⟩) ∧
      session.logFile = workspace.session.logFile := by
  change ∃ failure session, (if workspace.project.readDepth = 0 then _ else _ : Work Unit) workspace = _ ∧ _
  rw [if_neg (Nat.ne_of_gt reading), bind_apply]
  unfold ofJob
  rcases Job.deliver_cases ⟨.error, "Assertion failed: " ++ Failure.refreshDuringRead.message⟩
    workspace.session with ⟨behind, done, same⟩ | ⟨error, behind, lost, same, _⟩
  · rw [Job.say, done]
    exact ⟨_, behind, rfl, same⟩
  · rw [Job.say, lost]
    exact ⟨_, behind, rfl, same⟩

theorem logFile_ask {α : Type} (question : Project → Disk → Noted α) (workspace : Workspace) :
    (ask question workspace).2.session.logFile = workspace.session.logFile := by
  rw [ask_eq, ofJob]
  rcases Job.settle_cases (question workspace.project workspace.session.disk) workspace.session with
    ⟨behind, done, same⟩ | ⟨error, behind, lost, same, _⟩
  · rw [done]
    exact same
  · rw [lost]
    exact same

end Work

/-- A workspace during some number of read actions, with the index of a disk. -/
structure Workspace.Stands (project : Project) (logFile : Option Text) (taken : Disk) (readDepth : Nat)
    (workspace : Workspace) : Prop where
  project : workspace.project = project.snapshot taken readDepth
  logFile : workspace.session.logFile = logFile

/-- An action that encloses no others, when it is done. -/
structure Moment where
  action : Action
  /-- The number of read actions around it. -/
  enclosing : Nat
  before : Workspace

namespace Moment

def result (moment : Moment) : Except Failure Unit := (moment.action.run moment.before).1

def behind (moment : Moment) : Workspace := (moment.action.run moment.before).2

/-- The disk that the index was taken from last, behind a moment. -/
def takenBehind (moment : Moment) (taken : Disk) : Disk :=
  match moment.action, moment.result with
  | .refresh, .ok _ => moment.before.session.disk
  | _, _ => taken

/-- The disk that the index was taken from last, behind some moments. -/
def lastTaken (opened : Disk) (moments : List Moment) : Disk :=
  moments.foldl (fun taken moment => moment.takenBehind taken) opened

/-- A refresh that fails because a document cannot be read and the warning about it cannot be logged. -/
structure IsUnlogged (moment : Moment) : Prop where
  failed : ∃ error, moment.result = .error (Failure.log error)
  logged : ∃ path ∈ moment.before.session.logFile, path ≠ []
  unread : ∃ path ∈ Project.findDocuments moment.before.session.disk moment.before.project.root
    moment.before.project.config, moment.before.session.disk.readText? path = none
  kept : moment.behind.project = moment.before.project

/-- What a moment does to the project: a refresh takes a new index outside of read actions and fails inside,
and nothing else changes the project. -/
structure Obeys (moment : Moment) : Prop where
  outside : moment.action = .refresh → moment.enclosing = 0 →
    moment.IsUnlogged ∨ moment.result = .ok () ∧
      moment.behind.project = moment.before.project.snapshot moment.before.session.disk 0
  inside : moment.action = .refresh → 0 < moment.enclosing →
    (∃ failure, moment.result = .error failure) ∧ moment.behind.project = moment.before.project
  others : moment.action ≠ .refresh → moment.behind.project = moment.before.project

/-- Moments that follow one another in a project whose index was taken from a disk. -/
def Follow (project : Project) (logFile : Option Text) : Disk → List Moment → Prop
  | _, [] => True
  | taken, moment :: rest =>
    (moment.before.Stands project logFile taken moment.enclosing ∧ moment.Obeys) ∧
      Follow project logFile (moment.takenBehind taken) rest

theorem lastTaken_append (taken : Disk) (front back : List Moment) :
    lastTaken taken (front ++ back) = lastTaken (lastTaken taken front) back := List.foldl_append

theorem follow_append {project : Project} {logFile : Option Text} {taken : Disk} {front back : List Moment} :
    Follow project logFile taken (front ++ back) ↔
      Follow project logFile taken front ∧ Follow project logFile (lastTaken taken front) back := by
  induction front generalizing taken with
  | nil => exact ⟨fun follow => ⟨trivial, follow⟩, fun follow => follow.2⟩
  | cons moment rest ih =>
      rw [List.cons_append, Follow, ih, Follow]
      exact and_assoc.symm

theorem takenBehind_of_ne {moment : Moment} (other : moment.action ≠ .refresh) (taken : Disk) :
    moment.takenBehind taken = taken := by
  unfold takenBehind
  split
  · next isRefresh _ => exact absurd isRefresh other
  · rfl

theorem takenBehind_of_error {moment : Moment} {failure : Failure}
    (failed : moment.result = .error failure) (taken : Disk) : moment.takenBehind taken = taken := by
  unfold takenBehind
  split
  · next done => exact nomatch failed.symm.trans done
  · rfl

theorem takenBehind_of_ok {moment : Moment} (isRefresh : moment.action = .refresh)
    (done : moment.result = .ok ()) (taken : Disk) :
    moment.takenBehind taken = moment.before.session.disk := by
  rw [takenBehind, isRefresh, done]

end Moment

namespace Action

open Work (changeDepth)

mutual

/-- The moments of an action, in the order in which they come. -/
def moments (enclosing : Nat) (workspace : Workspace) : Action → List Moment
  | read body => momentsAll (enclosing + 1) (changeDepth (· + 1) workspace) body
  | attempt body => momentsAll enclosing workspace body
  | action => [⟨action, enclosing, workspace⟩]

/-- The moments of actions up to the first one that fails. -/
def momentsAll (enclosing : Nat) (workspace : Workspace) : List Action → List Moment
  | [] => []
  | action :: rest =>
    action.moments enclosing workspace ++
      match action.run workspace with
      | (.ok _, behind) => momentsAll enclosing behind rest
      | (.error _, _) => []

end

theorem runAll_cons (action : Action) (rest : List Action) (workspace : Workspace) :
    runAll (action :: rest) workspace =
      match action.run workspace with
      | (.ok _, behind) => runAll rest behind
      | (.error failure, behind) => (.error failure, behind) := by
  rw [runAll, bind_apply]
  rcases action.run workspace with ⟨_ | _, behind⟩ <;> rfl

theorem run_attempt (body : List Action) (workspace : Workspace) :
    (attempt body).run workspace = (.ok (), (runAll body workspace).2) := by
  rw [run, tryCatch_apply]
  rcases runAll body workspace with ⟨_ | _, behind⟩ <;> rfl

theorem run_read (body : List Action) (workspace : Workspace) :
    (read body).run workspace =
      ((runAll body (changeDepth (· + 1) workspace)).1,
        changeDepth (· - 1) (runAll body (changeDepth (· + 1) workspace)).2) := by
  rw [run]
  rfl

/-- A refresh within read actions, however many there are, fails and keeps the project. -/
theorem run_refreshWithin (depth : Nat) (workspace : Workspace) :
    ∃ failure session, (refreshWithin (depth + 1)).run workspace = (.error failure, ⟨workspace.project, session⟩) ∧
      session.logFile = workspace.session.logFile := by
  induction depth generalizing workspace with
  | zero =>
      have reading : 0 < (changeDepth (· + 1) workspace).project.readDepth := Nat.succ_pos _
      obtain ⟨failure, session, failed, same⟩ := Work.refresh_of_reading reading
      refine ⟨failure, session, ?_, same⟩
      rw [refreshWithin, refreshWithin, run_read, runAll_cons, run, failed]
      rfl
  | succ depth ih =>
      obtain ⟨failure, session, failed, same⟩ := ih (changeDepth (· + 1) workspace)
      refine ⟨failure, session, ?_, same⟩
      rw [refreshWithin, run_read, runAll_cons, failed]
      rfl

variable {project : Project} {logFile : Option Text}

section Single

variable {taken : Disk} {enclosing : Nat} {workspace : Workspace}

/-- An action that is no refresh and encloses nothing is one moment, which keeps the project. -/
theorem follow_of_ne {action : Action} (other : action ≠ .refresh)
    (kept : (action.run workspace).2.project = workspace.project)
    (keptLog : (action.run workspace).2.session.logFile = workspace.session.logFile)
    (stands : workspace.Stands project logFile taken enclosing) :
    Moment.Follow project logFile taken [⟨action, enclosing, workspace⟩] ∧
      (action.run workspace).2.Stands project logFile
        (Moment.lastTaken taken [⟨action, enclosing, workspace⟩]) enclosing := by
  have same : Moment.lastTaken taken [⟨action, enclosing, workspace⟩] = taken :=
    Moment.takenBehind_of_ne other taken
  rw [same]
  refine ⟨⟨⟨stands, ?_⟩, trivial⟩, kept.trans stands.project, keptLog.trans stands.logFile⟩
  exact ⟨fun isRefresh => absurd isRefresh other, fun isRefresh => absurd isRefresh other, fun _ => kept⟩

theorem follow_of_failed {failure : Failure} {session : Session}
    (failed : refresh.run workspace = (.error failure, ⟨workspace.project, session⟩))
    (keptLog : session.logFile = workspace.session.logFile)
    (lost : enclosing = 0 → Moment.IsUnlogged ⟨refresh, enclosing, workspace⟩)
    (stands : workspace.Stands project logFile taken enclosing) :
    Moment.Follow project logFile taken [⟨refresh, enclosing, workspace⟩] ∧
      (refresh.run workspace).2.Stands project logFile
        (Moment.lastTaken taken [⟨refresh, enclosing, workspace⟩]) enclosing := by
  have result : Moment.result ⟨refresh, enclosing, workspace⟩ = .error failure := congrArg Prod.fst failed
  have kept : (Moment.behind ⟨refresh, enclosing, workspace⟩).project = workspace.project :=
    congrArg (·.2.project) failed
  have same : Moment.lastTaken taken [⟨refresh, enclosing, workspace⟩] = taken :=
    Moment.takenBehind_of_error result taken
  rw [same, failed]
  refine ⟨⟨⟨stands, ?_⟩, trivial⟩, stands.project, keptLog.trans stands.logFile⟩
  exact ⟨fun _ idle => .inl (lost idle), fun _ _ => ⟨⟨failure, result⟩, kept⟩,
    fun other => absurd rfl other⟩

theorem follow_refresh (stands : workspace.Stands project logFile taken enclosing) :
    Moment.Follow project logFile taken [⟨refresh, enclosing, workspace⟩] ∧
      (refresh.run workspace).2.Stands project logFile
        (Moment.lastTaken taken [⟨refresh, enclosing, workspace⟩]) enclosing := by
  have depth : workspace.project.readDepth = enclosing := congrArg Project.readDepth stands.project
  rcases Nat.eq_zero_or_pos enclosing with rfl | enclosed
  · have ran := Work.refresh_of_idle depth
    rw [← run] at ran
    rcases Job.settle_cases (workspace.project.rebuild workspace.session.disk) workspace.session with
      ⟨behind, done, keptLog⟩ | ⟨error, behind, lost, keptLog, told, file⟩
    · rw [done, Project.value_rebuild, depth] at ran
      have result : Moment.result ⟨refresh, 0, workspace⟩ = .ok () := congrArg Prod.fst ran
      have same : Moment.lastTaken taken [⟨refresh, 0, workspace⟩] = workspace.session.disk :=
        Moment.takenBehind_of_ok rfl result taken
      refine ⟨⟨⟨stands, ?_⟩, trivial⟩, ?_⟩
      · exact ⟨fun _ _ => .inr ⟨result, congrArg (·.2.project) ran⟩,
          fun _ inside => absurd inside (Nat.lt_irrefl 0), fun other => absurd rfl other⟩
      · rw [same, ran]
        refine ⟨?_, keptLog.trans stands.logFile⟩
        dsimp only
        rw [stands.project]
        rfl
    · rw [lost] at ran
      exact follow_of_failed ran keptLog (fun _ => ⟨⟨error, congrArg Prod.fst ran⟩, file,
        Project.unread_of_notices_rebuild told, congrArg (·.2.project) ran⟩) stands
  · obtain ⟨failure, session, ran, keptLog⟩ := Work.refresh_of_reading (depth.symm ▸ enclosed)
    rw [← run] at ran
    exact follow_of_failed ran keptLog (fun idle => absurd idle (Nat.ne_of_gt enclosed)) stands

end Single

mutual

/-- The moments of an action follow one another, and leave the project with the index that was taken last. -/
theorem follow_moments (action : Action) {taken : Disk} {enclosing : Nat} {workspace : Workspace}
    (stands : workspace.Stands project logFile taken enclosing) :
    Moment.Follow project logFile taken (action.moments enclosing workspace) ∧
      (action.run workspace).2.Stands project logFile
        (Moment.lastTaken taken (action.moments enclosing workspace)) enclosing := by
  cases action with
  | read body =>
      have entered : (changeDepth (· + 1) workspace).Stands project logFile taken (enclosing + 1) := by
        refine ⟨?_, stands.logFile⟩
        rw [Work.project_changeDepth, stands.project]
        rfl
      obtain ⟨follow, left⟩ := follow_momentsAll body entered
      rw [moments, run_read]
      refine ⟨follow, ?_, left.logFile⟩
      rw [Work.project_changeDepth, left.project]
      rfl
  | attempt body =>
      rw [moments, run_attempt]
      exact follow_momentsAll body stands
  | refresh => exact follow_refresh stands
  | ask question =>
      exact follow_of_ne Action.noConfusion rfl (Work.logFile_ask question workspace) stands
  | write path text => exact follow_of_ne Action.noConfusion rfl rfl stands
  | makeDirectory path => exact follow_of_ne Action.noConfusion rfl rfl stands
  | remove path => exact follow_of_ne Action.noConfusion rfl rfl stands
  | fail message => exact follow_of_ne Action.noConfusion rfl rfl stands

theorem follow_momentsAll (actions : List Action) {taken : Disk} {enclosing : Nat} {workspace : Workspace}
    (stands : workspace.Stands project logFile taken enclosing) :
    Moment.Follow project logFile taken (momentsAll enclosing workspace actions) ∧
      (runAll actions workspace).2.Stands project logFile
        (Moment.lastTaken taken (momentsAll enclosing workspace actions)) enclosing := by
  cases actions with
  | nil => exact ⟨trivial, stands⟩
  | cons action rest =>
      obtain ⟨follow, left⟩ := follow_moments action stands
      rw [momentsAll, runAll_cons, Moment.follow_append, Moment.lastTaken_append]
      cases ran : action.run workspace with
      | mk result behind =>
          rw [ran] at left
          cases result with
          | error failure => exact ⟨⟨follow, trivial⟩, left⟩
          | ok value =>
              obtain ⟨restFollow, restLeft⟩ := follow_momentsAll rest left
              exact ⟨⟨follow, restFollow⟩, restLeft⟩

end

end Action

namespace Workspace

/-- The workspace behind actions that are done one after the other, whether they fail or not. -/
def behind (workspace : Workspace) (actions : List Action) : Workspace :=
  actions.foldl (fun workspace action => (action.run workspace).2) workspace

/-- The moments of actions that are done one after the other, whether they fail or not. -/
def history (workspace : Workspace) : List Action → List Moment
  | [] => []
  | action :: rest => action.moments 0 workspace ++ (action.run workspace).2.history rest

theorem follow_history {project : Project} {logFile : Option Text} {taken : Disk} {workspace : Workspace}
    (actions : List Action) (stands : workspace.Stands project logFile taken 0) :
    Moment.Follow project logFile taken (workspace.history actions) ∧
      (workspace.behind actions).Stands project logFile
        (Moment.lastTaken taken (workspace.history actions)) 0 := by
  induction actions generalizing workspace taken with
  | nil => exact ⟨trivial, stands⟩
  | cons action rest ih =>
      obtain ⟨follow, left⟩ := action.follow_moments stands
      obtain ⟨restFollow, restLeft⟩ := ih left
      rw [history, Moment.follow_append, Moment.lastTaken_append]
      exact ⟨⟨follow, restFollow⟩, restLeft⟩

theorem ofDirectory_eq_snapshot (disk : Disk) (root : Text) (config : Config) (configFile : Option Text) :
    (Project.ofDirectory disk root config configFile).value =
      (Project.ofDirectory disk root config configFile).value.snapshot disk 0 := by
  have read := (Project.readSources_spec disk
    (Project.findDocuments disk (disk.canonical root) config)).1
  simp only [Project.ofDirectory, Project.buildIndex, Noted.value_bind, Noted.value_pure, read]
  rfl

/-- After actions in a project that was opened on a disk no read action is under way, and at every moment the
index is that of the disk from which it was taken last. It is taken by refreshes outside of read actions. Such
a refresh fails only if a warning about a document that cannot be read cannot be logged. No action gives a session
a log file, and without one no refresh fails so. -/
theorem index_is_snapshot (disk : Disk) (root : Text) (config : Config) (configFile : Option Text)
    (session : Session) (actions : List Action) :
    let project := (Project.ofDirectory disk root config configFile).value
    let opened : Workspace := ⟨project, session⟩
    (opened.behind actions).project =
      project.snapshot (Moment.lastTaken disk (opened.history actions)) 0 ∧
    ∀ front moment back, opened.history actions = front ++ moment :: back →
      moment.before.project = project.snapshot (Moment.lastTaken disk front) moment.enclosing ∧
      moment.Obeys ∧ ((∀ path ∈ session.logFile, path = []) → ¬ moment.IsUnlogged) := by
  intro project opened
  have stands : opened.Stands project session.logFile disk 0 :=
    ⟨ofDirectory_eq_snapshot disk root config configFile, rfl⟩
  obtain ⟨follow, left⟩ := follow_history actions stands
  refine ⟨left.project, ?_⟩
  intro front moment back split
  rw [split, Moment.follow_append] at follow
  obtain ⟨⟨before, obeys⟩, _⟩ := follow.2
  refine ⟨before.project, obeys, ?_⟩
  intro unlogged isUnlogged
  obtain ⟨path, mem, nonempty⟩ := isUnlogged.logged
  exact nonempty (unlogged path (before.logFile ▸ mem))

/-- A document is changed, and a refresh follows a failure that was passed over in the same read action. -/
theorem index_is_snapshot_behind_nested_failure :
    let disk : Disk :=
      { root := .directory [("proj", .directory [("a.adoc", .file ":a: x\n")])]
        cwd := "/proj"
        sound := ⟨by decide⟩ }
    let project := (Project.ofDirectory disk "/proj" .default none).value
    let opened : Workspace := ⟨project, .start disk .empty "now"⟩
    let actions : List Action := [.write "/proj/a.adoc" ":b: y\n",
      .read [.attempt [.read [.fail "no"]], .refresh], .refresh]
    (∃ front moment back, opened.history actions = front ++ moment :: back ∧
      moment.action = .refresh ∧ moment.enclosing = 1 ∧
      (∃ failure, moment.result = .error failure) ∧
      moment.behind.project = project.snapshot disk 1) ∧
    (∀ path ∈ opened.session.logFile, path = []) ∧
    (opened.behind actions).project = project.snapshot (disk.write "/proj/a.adoc" ":b: y\n") 0 ∧
    (opened.behind actions).project.index.attributes.get "b" =
      [⟨⟨"b", some "y"⟩, ⟨"/proj/a.adoc", 1⟩⟩] := by
  intro disk project opened actions
  obtain ⟨left, moments⟩ := index_is_snapshot disk "/proj" .default none opened.session actions
  have noFile : ∀ path ∈ opened.session.logFile, path = [] := fun _ none => nomatch none
  refine ⟨?_, noFile, ?_⟩
  · obtain ⟨before, obeys, _⟩ := moments [_, _] _ [_] rfl
    obtain ⟨failed, kept⟩ := obeys.inside rfl Nat.one_pos
    exact ⟨[_, _], _, [_], rfl, rfl, rfl, failed, kept.trans before⟩
  · obtain ⟨_, obeys, logged⟩ := moments [_, _, _] _ [] rfl
    rcases obeys.outside rfl rfl with unlogged | ⟨done, _⟩
    · exact absurd unlogged (logged noFile)
    · have taken : Moment.lastTaken disk (opened.history actions) =
          disk.write "/proj/a.adoc" ":b: y\n" := Moment.takenBehind_of_ok rfl done _
      rw [taken] at left
      refine ⟨left, ?_⟩
      rw [left]
      decide +kernel

end Workspace

end Crossref

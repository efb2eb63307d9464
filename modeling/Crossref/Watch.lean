import Crossref.Debounce
import Crossref.Workspace.Action

/-! Watching a project: changes below its root lead to a check once they pause. A watch is a state
that what happens to it moves on, and it goes on when a check fails. Nothing catches a failure to log a line, which
ends the program. -/

set_option autoImplicit false

namespace Crossref

/-- Whether a path passes a directory with one of some names. Slashes of both kinds divide it. -/
def isExcluded (exclude : List Text) (path : Text) : Bool :=
  (Text.pieces (fun c => c = '\\' || c = '/') path).any fun name => exclude.contains name

/-- The requests of a user to end a program. -/
inductive Signal where
  | interrupt
  | terminate
deriving DecidableEq

/-- What happens to a watch. -/
inductive WatchEvent where
  /-- Something is done in the workspace that the watch is not told about. -/
  | unseen (action : Action)
  /-- Something happened to a path. -/
  | changed (change path : Text)
  /-- Time goes by, in milliseconds. -/
  | passed (duration : Nat)
  /-- The watching itself fails. -/
  | failed (message : Text)
  /-- From now on the watching cannot be ended without a failure. -/
  | stuck (message : Text)
  | signalled (signal : Signal)

structure Watch where
  workspace : Workspace
  /-- What is done after each refresh. -/
  check : Action
  timer : Debounce Unit
  /-- The number of checks that were begun. -/
  checks : Nat
  /-- The signals that have not come yet. Each one is heeded once. -/
  awaited : List Signal
  /-- Why the watching cannot be ended without a failure. -/
  obstacle : Option Text
  /-- How often the end of the watching was requested. -/
  endings : Nat
  /-- Whether the watch is over. -/
  isOver : Bool

/-- A reaction of a watch. What it did to the watch remains also if it fails. -/
abbrev Reaction := ExceptT Failure (StateM Watch)

namespace Watch

/-- How long changes have to pause before a check, in milliseconds. -/
def pause : Nat := 200

def ignores (watch : Watch) (path : Text) : Bool :=
  let project := watch.workspace.project
  isExcluded project.config.exclude
    (Path.relative watch.workspace.session.disk.cwd project.root path)

def inWorkspace {α : Type} (work : Work α) : Reaction α := fun watch =>
  let (result, workspace) := work watch.workspace
  (result, { watch with workspace })

/-- Tells the user something. -/
def say (level : Level) (message : Text) : Reaction Unit :=
  inWorkspace (Work.ofJob (Job.say level message))

def idleMessage : Text := "\nWatching for changes... (press Ctrl+C to stop)"

/-- The line above the results of a check. -/
def separator : Text := '\n' :: List.replicate 60 '='

def refreshAndCheck : Reaction Unit := do
  inWorkspace Work.refresh
  modify fun watch => { watch with checks := watch.checks + 1 }
  inWorkspace (← get).check.run

/-- Checks again. A failure of the refresh or of the check is reported, and the watch goes on. -/
def recheck : Reaction Unit := do
  say .info separator
  try refreshAndCheck
  catch failure =>
    say .error "Check failed:"
    say .error failure.message
  say .info idleMessage

/-- A change of a watched path is told, and puts the next check off. -/
def change (name path : Text) : Reaction Unit := do
  unless (← get).ignores path do
    say .detail (name ++ ": " ++ path)
    modify fun watch => { watch with timer := watch.timer.call pause () }

/-- Time goes by. The check runs if its time has come. -/
def pass (duration : Nat) : Reaction Unit := do
  let (run, timer) := (← get).timer.advance duration
  modify fun watch => { watch with timer }
  if run.isSome then recheck

/-- The report of an error that has no kind of its own. -/
def errorText (message : Text) : Text :=
  if message.isEmpty then "Error" else "Error: " ++ message

def heed (signal : Signal) : Reaction Unit := do
  let awaited := (← get).awaited
  if awaited.contains signal then
    modify fun watch => { watch with awaited := awaited.filter (· ≠ signal) }
    say .info "\nShutting down..."
    modify fun watch => { watch with endings := watch.endings + 1 }
    if let some message := (← get).obstacle then
      say .error ("Failed to close watcher: " ++ message)
    modify fun watch => { watch with isOver := true }

/-- What a watch does about an event. -/
def react : WatchEvent → Reaction Unit
  | .unseen action => inWorkspace action.run
  | .changed name path => change name path
  | .passed duration => pass duration
  | .failed message => say .error ("Watcher error: " ++ errorText message)
  | .stuck message => modify fun watch => { watch with obstacle := some message }
  | .signalled signal => heed signal

/-- Whether the program goes on behind an event. A reaction that fails ends it, and so does a signal that is not
awaited any more, which is left to the system. What is done elsewhere does not. -/
def outlives (event : WatchEvent) (watch : Watch) : Bool :=
  match event with
  | .unseen _ => true
  | .signalled signal => watch.awaited.contains signal && (react event watch).1.isOk
  | _ => (react event watch).1.isOk

def start (project : Project) (check : Action) : Job Watch := do
  Job.say .info idleMessage
  return {
    workspace := ⟨project, ← get⟩
    check
    timer := .start
    checks := 0
    awaited := [.interrupt, .terminate]
    obstacle := none
    endings := 0
    isOver := false
  }

end Watch

end Crossref

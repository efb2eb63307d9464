import Crossref.Project
import Crossref.Session

/-! Workspaces: a project that is open in a session. Its index is refreshed only while no read
action is under way. -/

set_option autoImplicit false

namespace Crossref

structure Workspace where
  project : Project
  session : Session

/-- An action in a workspace. What it did to the workspace remains also if it fails. -/
abbrev Work := ExceptT Failure (StateM Workspace)

namespace Work

variable {α : Type}

def ofJob (job : Job α) : Work α := fun workspace =>
  let (result, session) := job workspace.session
  (result, { workspace with session })

/-- Changes the disk. The index does not follow. -/
def edit (change : Disk → Disk) : Work Unit :=
  modify fun workspace =>
    { workspace with session := { workspace.session with disk := change workspace.session.disk } }

/-- Asks the project something and delivers the notices of the answer. -/
def ask (question : Project → Disk → Noted α) : Work α := do
  let workspace ← get
  ofJob (Job.settle (question workspace.project workspace.session.disk))

/-- Builds the index anew from the disk. During a read action this fails, and the failure is
reported. -/
def refresh : Work Unit := do
  if (← get).project.readDepth = 0 then
    let project ← ask Project.rebuild
    modify fun workspace => { workspace with project }
  else
    ofJob (Job.say .error ("Assertion failed: " ++ Failure.refreshDuringRead.message))
    throw .refreshDuringRead

/-- Makes a change to the number of read actions that are under way. -/
def changeDepth (change : Nat → Nat) (workspace : Workspace) : Workspace :=
  { workspace with
    project := { workspace.project with readDepth := change workspace.project.readDepth } }

/-- Does an action as a read: it is under way until the action ends, however it ends. -/
def reading (work : Work α) : Work α := fun workspace =>
  let (result, after) := work (changeDepth (· + 1) workspace)
  (result, changeDepth (· - 1) after)

end Work

end Crossref

import Crossref.Workspace

/-! Actions in a workspace as data: changes of files, questions, refreshes, failures, and read
actions and attempts that enclose others. -/

set_option autoImplicit false

namespace Crossref

inductive Action where
  | write (path text : Text)
  | makeDirectory (path : Text)
  | remove (path : Text)
  | ask (question : Project → Disk → Noted Unit)
  | refresh
  | fail (message : Text)
  | read (body : List Action)
  /-- Passes over a failure of its body. -/
  | attempt (body : List Action)

namespace Action

mutual

def run : Action → Work Unit
  | write path text => Work.edit (·.write path text)
  | makeDirectory path => Work.edit (·.makeDirectory path)
  | remove path => Work.edit (·.remove path)
  | ask question => Work.ask question
  | refresh => Work.refresh
  | fail message => throw (.raised message)
  | read body => Work.reading (runAll body)
  | attempt body => tryCatch (runAll body) fun _ => return

/-- Does actions one after the other until one fails. -/
def runAll : List Action → Work Unit
  | [] => return
  | action :: rest => do
    action.run
    runAll rest

end

/-- A refresh within some number of read actions. -/
def refreshWithin : Nat → Action
  | 0 => refresh
  | depth + 1 => read [refreshWithin depth]

end Action

end Crossref

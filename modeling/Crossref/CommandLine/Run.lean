import Crossref.CommandLine.Request

/-! Runs of the program: from a command line and a session to what is shown and how it ends. -/

set_option autoImplicit false

namespace Crossref

/-- How a run ends: its session, what is shown as an error of use, the exit code, and the failure
that could not even be reported. -/
structure Ending where
  session : Session
  complaint : Text
  exitCode : Nat
  crash : Option Failure

/-- A run is over, or it goes on as a watch. -/
inductive Run where
  | ended (ending : Ending)
  | watching (watch : Watch)

namespace Run

def versionText : Text := "0.1.0"

def reportFailure (name : Text) (failure : Failure) : Job Unit := do
  Job.say .error (name ++ " failed:")
  Job.say .error failure.message

def reportAgain (failure : Failure) : Job Unit := Job.say .error failure.message

/-- Does a command. A failure is reported, and so is a failure to report it. -/
def ofCommand (command : Command) (session : Session) : Run :=
  match command.perform session with
  | (.ok (.watching watch), _) => .watching watch
  | (.ok (.done success), session) => .ended ⟨session, [], if success then 0 else 1, none⟩
  | (.error failure, session) =>
    match reportFailure command.name failure session with
    | (.ok _, session) => .ended ⟨session, [], 1, none⟩
    | (.error failure, session) =>
      match reportAgain failure session with
      | (.ok _, session) => .ended ⟨session, [], 1, none⟩
      | (.error crash, session) => .ended ⟨session, [], 1, some crash⟩

def ofArguments (arguments : List Text) (session : Session) : Run :=
  match Request.ofArguments arguments with
  | .error error => .ended ⟨session, error.message ++ "\n", 1, none⟩
  | .ok .version => .ended ⟨session.display (versionText ++ "\n"), [], 0, none⟩
  | .ok (.help needed) => .ended ⟨session, [], if needed then 1 else 0, none⟩
  | .ok (.command command) => ofCommand command session

end Run

end Crossref

import Crossref.Environment
import Crossref.Failure
import Crossref.Notice

/-! Sessions: what an action sees and changes besides its result. Notices are shown to the user and
then added to the log file, if there is one. -/

set_option autoImplicit false

namespace Crossref

structure Session where
  disk : Disk
  environment : Environment
  /-- All that was shown so far. -/
  shown : Text
  logFile : Option Text
  /-- The time that log lines bear. -/
  time : Text

namespace Session

/-- A session without a log file in which nothing was shown. -/
def start (disk : Disk) (environment : Environment) (time : Text) : Session :=
  ⟨disk, environment, [], none, time⟩

/-- Whether nothing is shown, because the run is a test. -/
def isSilent (session : Session) : Bool :=
  session.environment.get? "NODE_ENV" = some "test" || session.environment.isSet "JEST_WORKER_ID"

/-- Shows a text to the user. -/
def display (session : Session) (text : Text) : Session :=
  { session with shown := session.shown ++ text }

/-- Shows a notice, unless the session is silent. -/
def announce (session : Session) (notice : Notice) : Session :=
  if session.isSilent then session else session.display notice.line

/-- Adds a notice to the log file. An empty name stands for no file. -/
def log (session : Session) (notice : Notice) : Except LogError Session :=
  match session.logFile.filter fun path => !path.isEmpty with
  | none => .ok session
  | some path =>
    match session.disk.append path (notice.logLine session.time) with
    | .ok disk => .ok { session with disk }
    | .error cause => .error ⟨path, cause⟩

end Session

/-- An action in a session. What it did to the session remains also if it fails. -/
abbrev Job := ExceptT Failure (StateM Session)

namespace Job

/-- Shows a notice and then logs it. It stays shown if it cannot be logged. -/
def deliver (notice : Notice) : Job Unit := do
  modify (·.announce notice)
  match (← get).log notice with
  | .ok session => set session
  | .error error => throw (.log error)

/-- Tells the user something. -/
def say (level : Level) (message : Text) : Job Unit := deliver ⟨level, message⟩

/-- Delivers the notices of a value in order. The value is lost if one cannot be delivered. -/
def settle {α : Type} (noted : Noted α) : Job α := do
  noted.notices.forM deliver
  return noted.value

end Job

end Crossref

import Crossref.Environment.File
import Crossref.Project
import Crossref.Session

/-! Opening projects: the configuration gives the root directory, and environment files there may
set variables before the documents are read. -/

set_option autoImplicit false

namespace Crossref

namespace Session

/-- Takes over the variables of an environment file, if it can be read. -/
def loadVariables (session : Session) (replace : Bool) (path : Text) : Session :=
  match session.disk.readText? path with
  | none => session
  | some text =>
    let environment := session.environment.load replace (EnvironmentFile.assignments text)
    { session with environment }

/-- Loads the environment files of a directory. The variables that are set already are replaced by
those of the local file only. -/
def loadEnvironment (session : Session) (directory : Text) : Session :=
  (session.loadVariables false (Path.joinParts [directory, ".env"])).loadVariables true
    (Path.joinParts [directory, ".env.local"])

end Session

/-- Opens the project of the given configuration file, or else of the given root directory or the
working directory. -/
def Project.load (configPath root : Option Text) : Job Project := do
  let disk := (← get).disk
  match LoadedConfig.resolve disk configPath root with
  | .error error => throw (.config error)
  | .ok (some loaded) => openAt disk loaded.projectDir loaded.config (some loaded.file)
  | .ok none => openAt disk (disk.canonical (root.getD disk.cwd)) Config.default none
where
  openAt (disk : Disk) (directory : Text) (config : Config) (configFile : Option Text) :
      Job Project := do
    modify (·.loadEnvironment directory)
    Job.settle (Project.ofDirectory disk directory config configFile)

end Crossref

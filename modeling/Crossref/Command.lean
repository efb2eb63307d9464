import Crossref.Address
import Crossref.Project.Load
import Crossref.Report
import Crossref.Token.Lexer
import Crossref.Watch

/-! The commands of the program, and what they tell the user. -/

set_option autoImplicit false

namespace Crossref

/-- The options of a command. Those that a command does not have are not set. -/
structure Options where
  root : Option Text
  config : Option Text
  logFile : Option Text
  family : Option Text
  watch : Bool
deriving DecidableEq

namespace Options

def none : Options := ⟨.none, .none, .none, .none, false⟩

def logVariable : Text := "ADOCXREF_LOG_FILE"

def logFileIn (options : Options) (environment : Environment) : Option Text :=
  options.logFile.orElse fun _ => environment.get? logVariable

/-- The family that an option names. A name that no family has is told and does not count. -/
def readFamily (name : Option Text) : Noted (Option Family) :=
  match name with
  | .none => return .none
  | some name =>
    match Family.ofName? name with
    | some family => return some family
    | .none => do
      Noted.tell .warning ("Unknown resource family: " ++ name ++ " (expected one of " ++
        Text.join ", " (Family.all.map Family.name) ++ ")")
      return .none

end Options

inductive Command where
  | tokens (file : Text)
  | resolve (file key : Text) (options : Options)
  | attributes (file : Text) (text : Option Text) (options : Options)
  | addresses (file : Text) (options : Options)
  | descriptors (options : Options)
  | ids (id : Option Text) (options : Options)
  | check (options : Options)
deriving DecidableEq

/-- How a command ends: with success or not, or not until a watch is over. -/
inductive Outcome where
  | done (success : Bool)
  | watching (watch : Watch)

namespace Command

def name : Command → Text
  | tokens _ => "tokens"
  | resolve _ _ _ => "resolve"
  | attributes _ _ _ => "attrs"
  | addresses _ _ => "prefixes"
  | descriptors _ => "descriptors"
  | ids _ _ => "ids"
  | check _ => "check"

def sayAll (level : Level) (messages : List Text) : Job Unit :=
  messages.forM (Job.say level)

/-- Opens the project that the options name, and then the log file, which may be named in an
environment file. -/
def openProject (options : Options) : Job Project := do
  let project ← Project.load options.config options.root
  modify fun session => { session with logFile := options.logFileIn session.environment }
  Job.say .detail ("Project root: " ++ project.root)
  sayAll .detail (project.configFile.toList.map fun file => "Config: " ++ file)
  return project

def filePath (argument : Text) : Job Text := return (← get).disk.canonical argument

/-- Asks a project something and delivers the notices of the answer. -/
def ask {α : Type} (question : Disk → Noted α) : Job α := do
  Job.settle (question (← get).disk)

def runTokens (argument : Text) : Job Unit := do
  let file ← filePath argument
  match (← get).disk.readText? file with
  | none => throw (.unreadable file)
  | some text =>
    let tokens := Token.ofText text
    Job.say .output (Token.listing tokens)
    Job.say .detail (Text.ofNat tokens.length ++ " token(s)")

/-- The line of a candidate, which tells whether it exists. -/
def candidateLine (disk : Disk) (path : Text) : Text :=
  (if disk.exists? path then '+' else '-') :: ' ' :: path

def runResolve (argument key : Text) (options : Options) : Job Unit := do
  let project ← openProject options
  let file ← filePath argument
  let family ← Job.settle (Options.readFamily options.family)
  let candidates ← ask fun disk => project.resolveFrom disk file key family
  Job.say .heading ("Candidates for " ++ key ++ ":")
  sayAll .output (candidates.map (candidateLine (← get).disk))

def runAttributes (argument : Text) (text : Option Text) (options : Options) : Job Unit := do
  let project ← openProject options
  let file ← filePath argument
  match text with
  | some text =>
    match ← ask fun disk => project.expand disk file text project.config.maxSubstitutions with
    | some expanded => Job.say .output expanded
    | none => throw (.noExpansion text)
  | none =>
    let found ← ask fun disk => project.allAttributes disk file
    Job.say .heading (Text.ofNat found.length ++ " attribute declaration(s):")
    sayAll .output (found.map Attribute.line)

/-- The line of an address. An empty title is not shown. -/
def addressLine (address : ModuleAddress) : Text :=
  let title : Text :=
    match address.title with
    | none | some [] => []
    | some title => " (" ++ title ++ ")"
  address.text ++ "\t" ++ address.moduleDir ++ title

def runAddresses (argument : Text) (options : Options) : Job Unit := do
  let project ← openProject options
  let file ← filePath argument
  let disk := (← get).disk
  match (disk.parent? file).bind (disk.moduleRoot? project.root) with
  | none => Job.say .warning (file ++ " is not inside a module")
  | some moduleDir =>
    let addresses ← ask fun disk => project.moduleAddresses disk moduleDir
    Job.say .heading (Text.ofNat addresses.length ++ " prefix(es) from " ++ moduleDir ++ ":")
    sayAll .output (addresses.map addressLine)

def descriptorLines (descriptor : Descriptor) : List Text :=
  let shown (value : Option Text) : Text := value.getD "(none)"
  let title := (descriptor.title.map fun title => ("  title:   " : Text) ++ title).toList
  let first : List Text := ["  name:    " ++ shown descriptor.name]
  first ++ ["  version: " ++ shown descriptor.version] ++ title ++
    ["  modules: " ++ Text.join ", " (descriptor.modules.map (·.name))]

def runDescriptors (options : Options) : Job Unit := do
  let project ← openProject options
  let descriptors ← ask project.readDescriptors
  if descriptors.isEmpty then Job.say .warning "No antora.yml found."
  descriptors.forM fun descriptor => do
    Job.say .heading descriptor.file
    sayAll .output (descriptorLines descriptor)

def runIds (id : Option Text) (options : Options) : Job Unit := do
  let project ← openProject options
  match id with
  | none => sayAll .output project.index.ids.keys
  | some id =>
    let found := project.index.findIds id
    if found.isEmpty then Job.say .warning ("No block id \"" ++ id ++ "\"")
    sayAll .output (found.map fun place => place.file ++ ":" ++ Text.ofNat place.line)

/-- The check that a watch repeats. -/
def reportAction : Action := .ask fun project disk => do
  let _ ← project.report disk
  return

def runCheck (options : Options) : Job Outcome := do
  let project ← openProject options
  Job.say .heading "Checking references..."
  let problems ← ask project.report
  if options.watch then return .watching (← Watch.start project reportAction)
  else return .done (problems = 0)

def perform : Command → Job Outcome
  | tokens file => do
    runTokens file
    return .done true
  | resolve file key options => do
    runResolve file key options
    return .done true
  | attributes file text options => do
    runAttributes file text options
    return .done true
  | addresses file options => do
    runAddresses file options
    return .done true
  | descriptors options => do
    runDescriptors options
    return .done true
  | ids id options => do
    runIds id options
    return .done true
  | check options => runCheck options

end Command

end Crossref

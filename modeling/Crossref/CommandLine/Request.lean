import Crossref.Command
import Crossref.CommandLine.Scan

/-! Reading a command line. Options may stand before, between and behind the operands of a
command. Operands that a command has no use for are ignored. -/

set_option autoImplicit false

namespace Crossref

/-- The names of the commands. -/
inductive CommandName where
  | tokens
  | resolve
  | attributes
  | addresses
  | descriptors
  | ids
  | check
deriving DecidableEq

namespace CommandName

def all : List CommandName := [tokens, resolve, attributes, addresses, descriptors, ids, check]

def name : CommandName → Text
  | tokens => "tokens"
  | resolve => "resolve"
  | attributes => "attrs"
  | addresses => "prefixes"
  | descriptors => "descriptors"
  | ids => "ids"
  | check => "check"

/-- The letter that also names a command. -/
def letter : CommandName → Text
  | tokens => "t"
  | resolve => "r"
  | attributes => "a"
  | addresses => "p"
  | descriptors => "d"
  | ids => "i"
  | check => "c"

def ofText? (text : Text) : Option CommandName :=
  all.find? fun command => command.name = text || command.letter = text

def flags : CommandName → List Flag
  | tokens => []
  | resolve => [.family, .root, .config, .logFile]
  | check => [.watch, .root, .config, .logFile]
  | _ => [.root, .config, .logFile]

def command (name : CommandName) (operands : List Text) (options : Options) :
    Except UsageError Command :=
  match name, operands with
  | tokens, file :: _ => .ok (.tokens file)
  | resolve, file :: key :: _ => .ok (.resolve file key options)
  | resolve, [_] => .error (.missingArgument "key")
  | attributes, file :: rest => .ok (.attributes file rest.head? options)
  | addresses, file :: _ => .ok (.addresses file options)
  | descriptors, _ => .ok (.descriptors options)
  | ids, operands => .ok (.ids operands.head? options)
  | check, _ => .ok (.check options)
  | _, [] => .error (.missingArgument "file")

end CommandName

/-- What a command line asks for. -/
inductive Request where
  | version
  /-- Help is asked for, or it is needed because nothing is asked for. -/
  | help (needed : Bool)
  | command (command : Command)
deriving DecidableEq

namespace Request

def helpWord : Text := "help"

def helpFlag : Text := "--help"

def asksForHelp (arguments : List Text) : Bool :=
  arguments.any fun argument => argument = "-h" || argument = helpFlag

def options (scan : Scan) : Options :=
  { root := scan.value? .root
    config := scan.value? .config
    logFile := scan.value? .logFile
    family := scan.value? .family
    watch := (scan.value? .watch).isSome }

/-- The options of two hyphens that are known where the options of a command are `flags`. -/
def knownFlags (flags : List Flag) : List Text :=
  flags.map Flag.long ++ [helpFlag, Flag.version.long]

def knownCommands : List Text := CommandName.all.map CommandName.name ++ [helpWord]

/-- Reads what is left for a command. -/
def ofCommand (name : CommandName) (operands unknown : List Text) : Except UsageError Request := do
  let scan ← Scan.ofArguments name.flags false unknown
  if asksForHelp scan.unknown then return help false
  else
    match scan.unknown with
    | option :: _ => throw (.unknownOption option (knownFlags name.flags))
    | [] => return command (← name.command (operands ++ scan.operands) (options scan))

/-- Reads the arguments of a command line. A request for the version comes before all else. -/
def ofArguments (arguments : List Text) : Except UsageError Request := do
  let scan ← Scan.ofArguments [.version] false arguments
  if (scan.value? .version).isSome then return version
  else
    match scan.operands with
    | [] =>
      match scan.unknown with
      | [] => return help true
      | option :: _ =>
        if asksForHelp scan.unknown then return help false
        else throw (.unknownOption option (knownFlags []))
    | word :: operands =>
      match CommandName.ofText? word with
      | some name => ofCommand name operands scan.unknown
      | none =>
        if word = helpWord || asksForHelp scan.unknown then return help false
        else throw (.unknownCommand word knownCommands)

end Request

end Crossref

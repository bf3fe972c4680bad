import ReferralForest.Document.Printer
import ReferralForest.Program.Dialogue
import ReferralForest.Tool.Arguments

/-!
# The Command Line of the Offline Tool

What a run of the tool does, as a dialogue with the machine it runs on: files are read and written,
stores are opened and saved, and the clock is asked for. A store that is opened is saved again with
what the command has made of it.
-/

namespace ReferralForest

namespace CommandLine

/-- Why a file cannot be read. -/
inductive ReadFault where
  /-- There is no such file. -/
  | notFound
  /-- Something on the way to the file is no directory. -/
  | notDirectory
  /-- The file is a directory. -/
  | isDirectory
  /-- The path, or a name in it, is longer than a path or name can be. -/
  | nameTooLong
  /-- Something else, in the words of the machine. -/
  | other (reason : String)
  deriving DecidableEq

/-- The wording of a fault. -/
def ReadFault.message : ReadFault → String
  | notFound => "No such file or directory (os error 2)"
  | notDirectory => "Not a directory (os error 20)"
  | isDirectory => "Is a directory (os error 21)"
  | nameTooLong => "File name too long (os error 36)"
  | other reason => reason

/-- What a run asks the machine for. -/
inductive Request where
  /-- The text of a file. -/
  | readFile (path : String)
  /-- That a file be given a text. Tells whether that was possible. -/
  | writeFile (path text : String)
  /-- The store in a directory, which is made if it is not there, with room for some bytes. None if
  that is not possible. -/
  | openStore (dir : String) (capacity : Nat)
  /-- That the store in a directory be replaced. -/
  | saveStore (dir : String) (store : Store)
  /-- The time. -/
  | now

/-- What a request is answered with. -/
def Request.Answer : Request → Type
  | readFile _ => Except ReadFault String
  | writeFile .. => Bool
  | openStore .. => Option Store
  | saveStore .. => Unit
  | now => UInt64

/-- A run of the tool. -/
abbrev Run := Dialogue Request Request.Answer Failure

/-- The text of a file, or the failure that its fault means. -/
def readFile (path : String) (failure : ReadFault → Failure) : Run String := do
  let found : Except ReadFault String ← .request (Request.readFile path)
  .ofExcept (found.mapError failure)

/-- Gives a file a text. -/
def writeFile (path text : String) : Run Unit := do
  let done : Bool ← .request (Request.writeFile path text)
  if !done then .fail ⟨s!"writing {path}", []⟩

/-- The store in the directory of the configuration. -/
def openStore (config : Config) : Run Store := do
  let found : Option Store ← .request (Request.openStore config.dataDir config.mapBytes)
  match found with
  | some store => return store
  | none => .fail ⟨s!"opening store at {config.dataDir}", []⟩

/-- The configuration in force. -/
def configure (options : Options) : Run Config := do
  let config ← match options.config with
    | none => pure Config.default
    | some path => do
      let text ← readFile path fun fault => ⟨s!"cannot read {path}: {fault.message}", [fault.message]⟩
      match Config.parse text with
      | some config => pure config
      | none => .fail ⟨"invalid config", []⟩
  return { config with
    dataDir := options.dataDir.getD config.dataDir
    logLevel := options.logLevel.getD config.logLevel
    logFormat := options.logFormat.getD config.logFormat }

/-- The action of a command. The file of a genesis document is read only now. -/
def actionOf : Command → Run Action
  | .initGenesis file =>
    .initGenesis <$> readFile file fun fault => ⟨s!"reading genesis {file}", [fault.message]⟩
  | .exportGenesis _ => return .exportGenesis
  | .act action => return action

/-- Where the answer of a command goes: into a file, or to the output, with a line break after
it. Gives the output. -/
def deliver (command : Command) : Option Document → Run String
  | none => return ""
  | some answer =>
    match command with
    | .exportGenesis (some path) => do
      writeFile path answer.pretty
      return ""
    | _ => return answer.pretty ++ "\n"

/-- Carries out a command line, and gives the output. -/
def execute (invocation : Invocation) : Run String := do
  let config ← configure invocation.options
  let now : UInt64 ← match invocation.options.time with
    | some time => pure time
    | none => .request Request.now
  let store ← openStore config
  let host ← .ofExcept (Tool.hostOf config)
  let action ← actionOf invocation.command
  let (result, store) := action.run host ⟨now⟩ store
  let () ← .request (Request.saveStore config.dataDir store)
  deliver invocation.command (← .ofExcept result)

/-- How a run ends. -/
inductive Outcome where
  /-- It succeeds with some output. -/
  | success (output : String)
  /-- It fails. -/
  | failure (f : Failure)
  /-- It is asked for help. -/
  | help
  /-- It does not understand its arguments. -/
  | usage
  deriving DecidableEq

/-- What the run tells whoever started it. -/
def Outcome.exitCode : Outcome → Nat
  | success _ | help => 0
  | failure _ => 1
  | usage => 2

/-- **A run of the tool** with some arguments. -/
def run (args : List String) : Run Outcome :=
  match Arguments.parse args with
  | .error .help => return .help
  | .error .usage => return .usage
  | .ok invocation => do
    match ← (execute invocation).attempt with
    | .ok output => return .success output
    | .error f => return .failure f

end CommandLine

end ReferralForest

import ReferralForest.Store.Archive
import ReferralForest.Tool.CommandLine
import Std.Time.DateTime.Timestamp

/-!
# The Offline Tool

Runs the command line on the machine's own files and clock. A store lies in its directory as an
archive.
-/

namespace ReferralForest.Machine

open CommandLine

/-- What is printed when help is asked for, or when the arguments make no sense. -/
def usage : String :=
  "Usage: axm-referral [--config FILE] [--data-dir DIR] [--log-level LEVEL] " ++
  "[--log-format FORMAT] [--time SECONDS] COMMAND\n\n" ++
  "Commands: init-genesis FILE, export-genesis [--out FILE], show ACCOUNT, children ACCOUNT, " ++
  "check-status ACCOUNT STATUS, fees ACCOUNT, register REFERRER REFERRAL, stake ACCOUNT DELTA, " ++
  "begin-block, downgrades, help"

/-- The file of a store. -/
def archiveOf (dir : String) : String := dir ++ "/referral.store"

/-- The fault of a failed attempt to read a file. -/
def faultOf : IO.Error → ReadFault
  | .noFileOrDirectory .. => .notFound
  | .inappropriateType .. => .isDirectory
  | e => .other (toString e)

/-- The text of a file. -/
def readFile (path : String) : IO (Except ReadFault String) := do
  try return .ok (← IO.FS.readFile path)
  catch e => return .error (faultOf e)

/-- Gives a file a text. -/
def writeFile (path text : String) : IO Bool := do
  try
    IO.FS.writeFile path text
    return true
  catch _ => return false

/-- The store in a directory. An archive takes the room it needs. -/
def openStore (dir : String) : IO (Option Store) := do
  try IO.FS.createDirAll dir
  catch _ => return none
  match ← readFile (archiveOf dir) with
  | .ok text =>
    return (Store.ofArchive? text).map fun entries => ⟨⟨entries, .keySized⟩, []⟩
  | .error .notFound => return some (.ofPolicy .keySized)
  | .error _ => return none

/-- The answer of the machine to a request. -/
def answer : (request : Request) → IO request.Answer
  | .readFile path => readFile path
  | .writeFile path text => writeFile path text
  | .openStore dir _ => openStore dir
  | .saveStore dir store => IO.FS.writeFile (archiveOf dir) (Store.archive store.base.entries)
  | .now => do
    let t ← Std.Time.Timestamp.now
    return UInt64.ofNat t.toSecondsSinceUnixEpoch.val.toNat

/-- Carries a run out on the machine. -/
def perform {α : Type} : Run α → IO (Except Failure α)
  | .done a => return .ok a
  | .fail f => return .error f
  | .ask request next => do perform (next (← answer request))

end ReferralForest.Machine

open ReferralForest in
/-- Runs the tool with the arguments it is started with. -/
def main (args : List String) : IO UInt32 := do
  let outcome : CommandLine.Outcome := match ← Machine.perform (CommandLine.run args) with
    | .ok outcome => outcome
    | .error f => .failure f
  match outcome with
  | .success output => IO.print output
  | .failure f => IO.eprintln f.report
  | .help => IO.println Machine.usage
  | .usage => IO.eprintln Machine.usage
  return UInt32.ofNat outcome.exitCode

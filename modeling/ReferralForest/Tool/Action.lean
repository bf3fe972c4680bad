import ReferralForest.Config.Basic
import ReferralForest.Document.Forms
import ReferralForest.Document.Parser
import ReferralForest.Forest.Downgrades
import ReferralForest.Forest.Query
import ReferralForest.Forest.Snapshot
import ReferralForest.Forest.Stake

/-!
# Actions of the Offline Tool

The tool runs an engine over a store of its own, without a bank, without listeners, and with plain
addresses. An action that writes does so in a branch: the store changes only if the action succeeds
and the store accepts all of its writes. What an action answers is a document.
-/

namespace ReferralForest

/-- Why the tool fails: what it was doing, and why that failed, from the outside in. -/
structure Failure where
  /-- What is said first. -/
  message : String
  /-- The causes. -/
  causes : List String
  deriving DecidableEq

namespace Failure

/-- A failed operation. -/
def ofError (e : Error) : Failure := ⟨e.message, e.causes⟩

/-- A failed query. -/
def ofQueryError (e : QueryError) : Failure := ⟨e.message, []⟩

/-- A commit that the store refuses. -/
def persisting (fault : Store.Fault) : Failure := ⟨"persisting changes", [fault.message]⟩

/-- A line for each cause. Several causes are numbered. -/
def causeLines (causes : List String) : List String :=
  match causes with
  | [cause] => ["    " ++ cause]
  | causes => causes.mapIdx fun i cause => "    " ++ toString i ++ ": " ++ cause

/-- A failure as it is reported to people. -/
def report (failure : Failure) : String :=
  "Error: " ++ failure.message ++
    if failure.causes.isEmpty then ""
    else "\n\nCaused by:\n" ++ String.intercalate "\n" (causeLines failure.causes)

end Failure

/-- What the tool can be asked to do. -/
inductive Action where
  /-- Builds a forest from a genesis document. -/
  | initGenesis (text : String)
  /-- Writes the forest out as a genesis document. -/
  | exportGenesis
  /-- Gives the record of an address. -/
  | record (account : String)
  /-- Lists the referrals of an address. -/
  | children (account : String)
  /-- Measures an address against a tier. -/
  | checkStatus (account : String) (status : Status)
  /-- Tells how a delegation of an address would be shared out. -/
  | fees (account : String)
  /-- Adds a referral. -/
  | register (request : Registration)
  /-- Changes the own stake of an address. -/
  | stake (account : String) (delta : Int)
  /-- Does what happens at the beginning of a block. -/
  | beginBlock
  /-- Lists the downgrade queue. -/
  | downgrades

namespace Tool

variable {α : Type}

/-- The engine that a configuration describes. -/
def hostOf (config : Config) : Except Failure Host :=
  match AccountId.parse config.authority with
  | .error fault => .error ⟨"invalid authority in config", [fault.message]⟩
  | .ok authority => .ok {
      codec := .plain config.addressBeginning
      bank := .offline
      bondDenom := config.bondDenom
      listeners := []
      authority
      moduleAccount := config.moduleAccount }

/-- The result of a program that writes nothing. -/
def read (p : Program α) (store : Store) : Except Failure α × Store :=
  let (result, w) := (World.ofStore store).run p
  (result.mapError Failure.ofError, w.store)

/-- The answer to a query. -/
def ask (query : Query α) (store : Store) : Except Failure α × Store :=
  let (result, w) := query.run (World.ofStore store)
  (result.mapError Failure.ofQueryError, w.store)

/-- Carries out a program that writes, and gives the notices it told. -/
def write (p : Program Unit) (store : Store) : Except Failure (List Notice) × Store :=
  let (result, w) := (World.ofStore store).inBranch Failure.persisting fun w =>
    let (result, w) := w.run p
    (result.mapError Failure.ofError, w)
  (result.map fun _ => w.notices, w.store)

/-- What is done with the account of an address. -/
def withAccount (host : Host) (address : String)
    (go : AccountId → Store → Except Failure α × Store) (store : Store) : Except Failure α × Store :=
  match host.parseAddress address with
  | .ok account => go account store
  | .error e => (.error (.ofError e), store)

/-- An answer as a document. -/
def answer (form : Form α) (result : Except Failure α × Store) :
    Except Failure (Option Document) × Store :=
  (result.1.map fun a => some (form.write a), result.2)

end Tool

open Tool in
/-- **Carries out an action** on a store as of a time. -/
def Action.run (host : Host) (now : Timestamp) (store : Store) :
    Action → Except Failure (Option Document) × Store
  | initGenesis text =>
    match (Document.parse text).bind Form.genesis.read with
    | none => (.error ⟨"parsing genesis", []⟩, store)
    | some genesis =>
      let (result, store) := write (Forest.importGenesis host genesis) store
      (result.map fun _ => none, store)
  | exportGenesis => answer Form.genesis (read Forest.exportGenesis store)
  | record address => answer Form.record (ask (Query.record host address) store)
  | children address => answer Form.account.list (ask (Query.children host address) store)
  | checkStatus address s => answer Form.assessment (ask (Query.checkStatus host address s) store)
  | fees address =>
    let (result, store) :=
      withAccount host address (fun account => read (Forest.feeSplit account)) store
    (result.map fun split => some (Form.feeSplit.write split).sorted, store)
  | register request => answer Form.notice.list (write (Forest.register host now request) store)
  | stake address delta =>
    answer Form.notice.list <|
      withAccount host address (fun account => write (Forest.changeStake host now account delta)) store
  | beginBlock => answer Form.notice.list (write (Forest.beginBlock host now) store)
  | downgrades => answer (Form.pair Form.timestamp Form.account).list (read Program.scheduled store)

end ReferralForest

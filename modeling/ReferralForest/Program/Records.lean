import ReferralForest.Binary.Stored
import ReferralForest.Program.Basic
import ReferralForest.Requirement

/-!
# Records in Programs

Reading and writing the slots of the store as what they hold. Each function makes the store calls its
name suggests and no others: looking a record up, or asking whether it is there, is one call, and so
is listing a family of slots.
-/

namespace ReferralForest.Program

/-- The record of an account, if it has one. -/
def record? (account : AccountId) : Program (Option Record) := do
  match ← get (Slot.record account).key with
  | some bytes => some <$> .ofExcept (Record.decode bytes)
  | none => return none

/-- The record of an account. -/
def record (account : AccountId) : Program Record := do
  match ← record? account with
  | some r => return r
  | none => .fail (.notFound account)

/-- Whether an account has a record. -/
def hasRecord (account : AccountId) : Program Bool :=
  has (Slot.record account).key

/-- Writes the record of an account. -/
def setRecord (account : AccountId) (r : Record) : Program Unit :=
  set (Slot.record account).key r.encode

/-- Reads an entry of the record family: its key first, then its value. -/
def readRecordEntry (entry : Key × Value) : Except Error (AccountId × Record) := do
  let account ← Slot.parseRecord entry.1
  let r ← Record.decode entry.2
  return (account, r)

/-- All records, in account order. -/
def allRecords : Program (List (AccountId × Record)) := do
  let entries ← range Slot.allRecords
  .ofExcept (entries.mapM readRecordEntry)

/-- The parameters, or the default ones if none are stored. -/
def params : Program Params := do
  match ← get Slot.params.key with
  | some bytes => .ofExcept (Params.decode bytes)
  | none => return .default

/-- Stores parameters, if they are acceptable. -/
def setParams (p : Params) : Program Unit := do
  .ofExcept p.validate
  set Slot.params.key p.encode

/-- Puts an account into the downgrade queue. -/
def schedule (time : Timestamp) (account : AccountId) : Program Unit :=
  set (Slot.downgrade time account).key marker

/-- Takes an account out of the downgrade queue. -/
def unschedule (time : Timestamp) (account : AccountId) : Program Unit :=
  delete (Slot.downgrade time account).key

/-- The downgrade queue, in order of time and account. -/
def scheduled : Program (List (Timestamp × AccountId)) := do
  let entries ← range Slot.allDowngrades
  .ofExcept (entries.mapM fun entry => Slot.parseDowngrade entry.1)

/-- The tier of an account. -/
def status (account : AccountId) : Program Status :=
  Record.status <$> record account

/-- The stake of an account and all its descendants. -/
def networkStake (account : AccountId) : Program Amount := do
  let r ← record account
  match r.teamStake.add? r.selfStake with
  | some total => return total
  | none => .fail (.overflow "delegated in network")

/-- Measures an account against an earned tier, without changing anything. -/
def checkStatus (account : AccountId) (s : Status) : Program Assessment := do
  if s = .unspecified then .fail (.invalidStatus s.rank)
  let r ← record account
  return s.assess r

end ReferralForest.Program

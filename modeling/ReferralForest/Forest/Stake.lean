import ReferralForest.Cascade.Activity

/-!
# Stake Changes

A change of an account's own stake. It is added to the team stake of every ancestor up to the root;
an account that crosses the activation threshold runs the activity cascade as well. Every account
touched is settled, and listeners hear of each one whose stake or team stake changed.
-/

namespace ReferralForest

namespace Cascade

/-- Adds to the own stake of a record. Gives the new activity if it changes, and the parent. -/
def addSelfStake (delta : Int) (r : Record) :
    Cascade ((Option Bool × Option AccountId) × Record) := do
  let stake ← checked "self delegation" (r.selfStake.shift? delta)
  let active : Bool := activationThreshold ≤ stake.units
  return ((if active = r.active then none else some active, r.referrer),
    { r with selfStake := stake })

/-- Adds to the team stake of a record. Gives the parent. -/
def addTeamStake (delta : Int) (r : Record) : Cascade (Option AccountId × Record) := do
  let stake ← checked "team delegation" (r.teamStake.shift? delta)
  return (r.referrer, { r with teamStake := stake })

/-- Walks up over all ancestors. More of them than `bound` are a cycle, around which a walk without a bound
would go forever instead of failing. After a history of operations there is no cycle, and the bound makes
no difference. -/
def raiseTeams (now : Timestamp) (delta : Int) : (bound : Nat) → Option AccountId → Cascade Unit
  | _, none => pure ()
  | 0, some ancestor => .fail (.referrerCycle ancestor)
  | bound + 1, some ancestor => do
    let parent ← update (some now) ancestor (addTeamStake delta)
    if delta ≠ 0 then announce ancestor .stakeChanged
    raiseTeams now delta bound parent.join

/-- The course of a stake change. An account outside the forest is ignored. -/
def changeStake (now : Timestamp) (account : AccountId) (delta : Int) (bound : Nat) :
    Cascade Unit := do
  match ← update (some now) account (addSelfStake delta) with
  | none => pure ()
  | some (flip, parent) =>
    if delta ≠ 0 then announce account .stakeChanged
    raiseTeams now delta bound parent
    match flip with
    | some active => setActive (some now) account active
    | none => pure ()

end Cascade

namespace Forest

/-- **An account's own stake changes by `delta`.** No chain of ancestors is longer than the store has
keys. -/
def changeStake (host : Host) (now : Timestamp) (account : AccountId) (delta : Int) :
    Program Unit := do
  let bound ← Program.size
  (Cascade.changeStake now account delta bound).commit host

/-- A bonded amount of an account moves from `old` to `new`. -/
def changeDelegation (host : Host) (now : Timestamp) (account : AccountId) (old new : Amount) :
    Program Unit := do
  match old.difference? new with
  | some delta => changeStake host now account delta
  | none => .fail (.overflow "stake delta")

/-- Only accounts of the forest may delegate. -/
def checkDelegation (account : AccountId) : Program Unit := do
  if !(← Program.hasRecord account) then .fail (.notFound account)

end Forest

end ReferralForest

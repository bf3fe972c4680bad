import ReferralForest.Cascade.Basic

/-!
# Membership

How accounts come into the forest, as roots or as referrals of an account that is in it, and who is
whose referral. Accounts never leave, and a referrer never changes.
-/

namespace ReferralForest

/-- A request to add a referral, both accounts being given by address. -/
structure Registration where
  /-- The account that brings the other in. -/
  referrer : String
  /-- The account that is brought in. -/
  referral : String
  deriving DecidableEq

namespace Cascade

/-- Settles an account and announces a change of its network; gives its parent. -/
def touch (now : Timestamp) (account : AccountId) : Cascade (Option AccountId) :=
  Option.join <$> update (some now) account fun r => pure (r.referrer, r)

/-- Touches so many ancestors. -/
def touchAncestors (now : Timestamp) : (levels : Nat) → Option AccountId → Cascade Unit
  | 0, _ | _, none => pure ()
  | levels + 1, some ancestor => do
    let parent ← touch now ancestor
    announce ancestor .stakeChanged
    touchAncestors now levels parent

/-- The course of a registration. The new account holds no stake yet, so its ancestors are only
settled and told, up to the level that activity reaches. -/
def register (now : Timestamp) (parent child : AccountId) : Cascade Unit := do
  put child (.fresh (some parent) .new)
  let grandparent ← touch now parent
  relate parent child
  announce parent .stakeChanged
  touchAncestors now (maxDepth - 1) grandparent

end Cascade

namespace Forest

/-- Fails unless `child` is new and `parent` is not. -/
def checkPlacement (parent child : AccountId) : Program Unit := do
  if ← Program.hasRecord child then .fail (.alreadyExists child)
  if !(← Program.hasRecord parent) then .fail (.referrerNotFound parent)

/-- **Adds a root** with a given tier. -/
def addRoot (host : Host) (account : AccountId) (status : Status) : Program Unit := do
  if ← Program.hasRecord account then .fail (.alreadyExists account)
  (Cascade.put account (.fresh none status)).commit host

/-- **Adds a referral** below an account of the forest. -/
def append (host : Host) (now : Timestamp) (parent child : AccountId) : Program Unit := do
  checkPlacement parent child
  (Cascade.register now parent child).commit host

/-- Adds a referral as requested. -/
def register (host : Host) (now : Timestamp) (request : Registration) : Program Unit := do
  if request.referrer.isEmpty then .fail .emptyReferrer
  let parent ← .ofExcept (host.parseAddress request.referrer)
  let child ← .ofExcept (host.parseAddress request.referral)
  if !(← Program.hasRecord parent) then .fail (.referrerNotFound parent)
  append host now parent child

/-- The referrer of an account. -/
def parent? (account : AccountId) : Program (Option AccountId) :=
  Record.referrer <$> Program.record account

/-- The referrals of an account, in the order of their relation keys: shorter names first. -/
def children (account : AccountId) : Program (List AccountId) := do
  let entries ← Program.range (.beginningWith (Slot.childrenOf account))
  .ofExcept (entries.mapM fun entry => Prod.snd <$> Slot.parseRelation entry.1)

/-- Reads an entry of the record family, its value first: the account, if it is a root. -/
def readRootEntry (entry : Key × Value) : Except Error (Option AccountId) := do
  let r ← Record.decode entry.2
  if r.isTopLevel then some <$> Slot.parseRecord entry.1 else return none

/-- The roots of the forest, in account order. -/
def roots : Program (List AccountId) := do
  let entries ← Program.range Slot.allRecords
  .ofExcept ((entries.mapM readRootEntry).map fun found => found.filterMap id)

end Forest

end ReferralForest

import ReferralForest.Forest.Membership
import ReferralForest.Genesis

/-!
# Snapshots

Building a forest from a genesis document, and writing one out. An import takes tiers from the
document and settles nothing; an export lists the forest breadth first, so that every referrer stands
before its referrals.
-/

namespace ReferralForest

namespace Cascade

/-- The course of scheduling downgrades from a document. A later entry for an account replaces an
earlier one. -/
def importDowngrades (host : Host) : List PendingDowngrade → Cascade Unit
  | [] => pure ()
  | d :: rest => do
    let account ← .ofExcept (host.parseAddress d.account)
    let _ ← update none account fun r => do
      match r.downgradeAt with
      | some previous => dequeue previous account
      | none => pure ()
      enqueue d.time account
      return ((), { r with downgradeAt := some d.time })
    importDowngrades host rest

end Cascade

namespace Forest

/-- Adds roots from a document. -/
def importRoots (host : Host) : List Member → Program Unit
  | [] => pure ()
  | m :: rest => do
    let account ← .ofExcept (host.parseAddress m.address)
    addRoot host account m.status
    importRoots host rest

/-- Adds a referral with a given tier, without settling anything. -/
def importReferral (host : Host) (parent child : AccountId) (status : Status) : Program Unit := do
  checkPlacement parent child
  let course : Cascade Unit := do
    Cascade.put child (.fresh (some parent) status)
    Cascade.relate parent child
  course.commit host

/-- Adds the referrals of a referrer from a document. -/
def importReferrals (host : Host) (parent : AccountId) : List Member → Program Unit
  | [] => pure ()
  | m :: rest => do
    let account ← .ofExcept (host.parseAddress m.address)
    importReferral host parent account m.status
    importReferrals host parent rest

/-- Adds the groups of a document. -/
def importGroups (host : Host) : List Group → Program Unit
  | [] => pure ()
  | g :: rest => do
    if g.referrer.isEmpty then .fail .emptyReferrer
    let parent ← .ofExcept (host.parseAddress g.referrer)
    importReferrals host parent g.referrals
    importGroups host rest

/-- Builds a forest from the parts of a document. -/
def importParts (host : Host) (roots : List Member) (groups : List Group)
    (downgrades : List PendingDowngrade) : Program Unit := do
  importRoots host roots
  importGroups host groups
  (Cascade.importDowngrades host downgrades).commit host

/-- **Builds a forest from a document**, if the document is valid. -/
def importGenesis (host : Host) (g : Genesis) : Program Unit := do
  .ofExcept g.validate
  Program.setParams g.params
  importParts host (g.roots.getD []) g.groups g.downgrades

/-- Looks up the records of some accounts. -/
def withRecords : List AccountId → Program (List (AccountId × Record))
  | [] => pure []
  | account :: rest => do
    let r ← Program.record account
    return (account, r) :: (← withRecords rest)

/-- A member entry. -/
def memberOf (entry : AccountId × Record) : Member := ⟨entry.1.text, entry.2.status⟩

/-- What a level of the forest adds to a document, and the level below it. -/
structure Level where
  /-- The accounts of the level below. -/
  below : List (AccountId × Record)
  /-- The groups of this level's referrals. -/
  groups : List Group
  /-- The scheduled downgrades of this level. -/
  downgrades : List PendingDowngrade

/-- Writes out a level, account by account. -/
def exportLevel : List (AccountId × Record) → Program Level
  | [] => pure ⟨[], [], []⟩
  | (account, r) :: rest => do
    let referrals ← withRecords (← children account)
    let others ← exportLevel rest
    return {
      below := referrals ++ others.below
      groups := if referrals.isEmpty then others.groups
        else ⟨account.text, referrals.map memberOf⟩ :: others.groups
      downgrades := match r.downgradeAt with
        | some time => ⟨account.text, r.status, time⟩ :: others.downgrades
        | none => others.downgrades }

/-- Writes out a level and all below it. More than `bound` levels are a cycle, which without a bound would
be written out forever. After a history of operations there is none, and the bound makes no difference. -/
def exportLevels : (bound : Nat) → List (AccountId × Record) →
    Program (List Group × List PendingDowngrade)
  | _, [] => pure ([], [])
  | 0, (account, _) :: _ => .fail (.referrerCycle account)
  | bound + 1, level => do
    let written ← exportLevel level
    let (groups, downgrades) ← exportLevels bound written.below
    return (written.groups ++ groups, written.downgrades ++ downgrades)

/-- **Writes out the forest** as a document. -/
def exportGenesis : Program Genesis := do
  let params ← Program.params
  let top ← withRecords (← roots)
  let bound ← Program.size
  let (groups, downgrades) ← exportLevels bound top
  return ⟨params, some (top.map memberOf), groups, downgrades⟩

end Forest

end ReferralForest

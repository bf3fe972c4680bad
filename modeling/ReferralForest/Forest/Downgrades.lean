import ReferralForest.Cascade.Basic

/-!
# Downgrades

The downgrade queue is drained at the beginning of a block. Each entry due is taken out of the queue
before its account is looked at, since a grace period of zero may put the account back under the same
key. An account loses one tier at a time and never falls below the lowest earned one.
-/

namespace ReferralForest

namespace Cascade

/-- Takes the schedule off a record if it is due, and one tier with it if there is a lower one.
Tells whether the tier was lowered. -/
def lower (now : Timestamp) (account : AccountId) (r : Record) : Cascade (Bool × Record) :=
  match r.downgradeAt with
  | none => pure (false, r)
  | some time =>
    if now < time then pure (false, r)
    else
      match r.status.prev? with
      | none => pure (false, { r with downgradeAt := none })
      | some below => do
        tell (.statusUpdated account r.status below)
        return (true, { r with downgradeAt := none, status := below })

/-- The course of a downgrade. The lowered record is settled like any other. -/
def downgrade (now : Timestamp) (account : AccountId) : Cascade Unit := do
  let lowered ← update (some now) account (lower now account)
  if lowered = some true then announce account .statusUpdated

end Cascade

namespace Forest

/-- Handles queue entries one by one. -/
def drainEach (host : Host) (now : Timestamp) : List (Key × Value) → Program Unit
  | [] => pure ()
  | (key, _) :: rest => do
    let (_, account) ← .ofExcept (Slot.parseDowngrade key)
    Program.delete key
    (Cascade.downgrade now account).commit host
    drainEach host now rest

/-- **Drains the queue**: handles every entry that is due, oldest first, and gives their number. -/
def drain (host : Host) (now : Timestamp) : Program Nat := do
  let due ← Program.range (Slot.due now)
  drainEach host now due
  return due.length

/-- What happens at the beginning of a block. -/
def beginBlock (host : Host) (now : Timestamp) : Program Unit :=
  discard (drain host now)

end Forest

end ReferralForest

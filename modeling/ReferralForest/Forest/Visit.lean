import ReferralForest.Cascade.Basic

/-!
# Visiting All Records

A visitor is shown every record, in account order, and says for each whether it changed it and
whether the status is to be settled. The records shown are those stored before the visit; all changes
are written together at the end.
-/

namespace ReferralForest

/-- What a visitor leaves behind. -/
structure Visit where
  /-- The record as the visitor left it. -/
  record : Record
  /-- Whether the record counts as changed. -/
  changed : Bool
  /-- Whether the status is to be settled. -/
  settle : Bool

namespace Cascade

/-- The course of a visit to some records. The visitor carries a state of its own along. -/
def visit {σ : Type} (now : Timestamp) (visitor : σ → AccountId → Record → σ × Visit) :
    σ → List (AccountId × Record) → Cascade σ
  | s, [] => pure s
  | s, (account, r) :: rest => do
    let (s, left) := visitor s account r
    if left.changed || left.settle then
      let _ ← update (if left.settle then some now else none) account fun stored =>
        pure ((), if left.changed then left.record else stored)
    visit now visitor s rest

end Cascade

/-- **Shows every record to a visitor**, and gives the visitor's last state. -/
def Forest.visit {σ : Type} (host : Host) (now : Timestamp)
    (visitor : σ → AccountId → Record → σ × Visit) (s : σ) : Program σ := do
  let records ← Program.allRecords
  (Cascade.visit now visitor s records).commit host

end ReferralForest

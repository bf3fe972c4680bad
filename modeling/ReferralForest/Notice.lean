import ReferralForest.AccountId
import ReferralForest.Amount
import ReferralForest.Status
import ReferralForest.Timestamp

/-!
# Notices and Events

What the engine tells the outside world. A *notice* is a line in the log of an operation. An *event*
is something other modules listen to; listeners are called when an operation has written its
records. A *transfer* is what the bank is asked to do.
-/

namespace ReferralForest

/-- A line in the log of an operation. -/
inductive Notice where
  /-- The account fails its tier's requirement and will lose the tier at the given time. -/
  | willBeDowngraded (account : AccountId) (time : Timestamp)
  /-- The account meets its tier's requirement again. -/
  | downgradeCanceled (account : AccountId)
  /-- The account changed its tier. -/
  | statusUpdated (account : AccountId) (before after : Status)
  /-- A share of a delegation was paid to an ancestor. -/
  | feePaid (payer payee : AccountId) (amount : Coin)
  deriving DecidableEq

/-- What other modules listen to. -/
inductive Event where
  /-- The stake of an account or of its team may have changed. -/
  | stakeChanged
  /-- The tier of an account was changed. -/
  | statusUpdated
  deriving DecidableEq

namespace Event

/-- The wire name of an event. -/
def name : Event → String
  | stakeChanged => "stake-changed"
  | statusUpdated => "status-updated"

/-- The name of an event in documents. -/
def label : Event → String
  | stakeChanged => "StakeChanged"
  | statusUpdated => "StatusUpdated"

/-- The place of an event in the order of calls. -/
def rank : Event → Nat
  | stakeChanged => 0
  | statusUpdated => 1

/-- Events are ordered as their wire names are. -/
instance : Ord Event := ⟨fun a b => compare a.rank b.rank⟩

instance : Std.TransOrd Event :=
  inferInstanceAs (Std.TransCmp (compareOn Event.rank))

instance : Std.LawfulEqOrd Event where
  eq_of_compare {a b} h := by
    have : a.rank = b.rank := Std.LawfulEqOrd.eq_of_compare h
    cases a <;> cases b <;> simp_all [rank]

end Event

/-- An account an event is about. -/
structure Callback where
  /-- The account. -/
  account : AccountId
  /-- The event. -/
  event : Event
  deriving DecidableEq

namespace Callback

/-- Callbacks are ordered by account, then by event. -/
instance : Ord Callback :=
  ⟨compareLex (compareOn Callback.account) (compareOn Callback.event)⟩

instance : Std.TransOrd Callback :=
  inferInstanceAs (Std.TransCmp (compareLex (compareOn Callback.account) (compareOn Callback.event)))

instance : Std.LawfulEqOrd Callback where
  eq_of_compare {a b} h := by
    obtain ⟨h₁, h₂⟩ := compareLex_eq_eq.1 h
    cases a
    cases b
    congr
    · exact Std.LawfulEqOrd.eq_of_compare h₁
    · exact Std.LawfulEqOrd.eq_of_compare h₂

end Callback

/-- One receiver of a batched transfer. -/
structure Payout where
  /-- The address of the receiver. -/
  address : List UInt8
  /-- What it receives. -/
  coins : List Coin
  deriving DecidableEq

/-- What the bank is asked to do. -/
inductive Transfer where
  /-- Moves coins of an account to a module. -/
  | toModule (sender : List UInt8) (module : String) (coins : List Coin)
  /-- Destroys coins of a module. -/
  | burn (module : String) (coins : List Coin)
  /-- Moves coins of an account to several accounts at once. -/
  | payOut (sender : List UInt8) (coins : List Coin) (payouts : List Payout)
  deriving DecidableEq

end ReferralForest

import ReferralForest.AccountId
import ReferralForest.Amount
import ReferralForest.Status
import ReferralForest.Timestamp

/-!
# Account Records

What is kept about one account: its tier and referrer, its own stake and that of its team, and the
incrementally maintained counts about the active accounts below it.
-/

namespace ReferralForest

/-- Counts of active first-line referrals. Each is signed and bounded, and moves by checked steps. -/
structure Tallies where
  /-- Active first-line referrals. -/
  firstLine : Int64
  /-- Those of them with at least three active first-line referrals of their own. -/
  firstLineByThree : Int64
  /-- Those whose active team has fewer than 15 members. -/
  team0 : Int64
  /-- Those whose active team has 15 to 49 members. -/
  team15 : Int64
  /-- Those whose active team has 50 to 99 members. -/
  team50 : Int64
  /-- Those whose active team has 100 to 299 members. -/
  team100 : Int64
  /-- Those whose active team has at least 300 members. -/
  team300 : Int64
  deriving DecidableEq

/-- All counts zero. -/
def Tallies.zero : Tallies := ⟨0, 0, 0, 0, 0, 0, 0⟩

/-- How many generations are counted: the account itself and fourteen below it. -/
def generationCount : Nat := 15

/-- How many levels of ancestors activity counts and delegation fees reach. -/
def maxDepth : Nat := 14

/-- The record of an account. -/
structure Record where
  /-- The tier held. -/
  status : Status
  /-- The account that brought this one in; none for a root of the forest. -/
  referrer : Option AccountId
  /-- Whether the own stake reaches the activation threshold. -/
  active : Bool
  /-- The stake of the account itself. -/
  selfStake : Amount
  /-- The stake of all its descendants. -/
  teamStake : Amount
  /-- For each generation, the number of active accounts in it; the account itself is
  generation 0. -/
  generations : List UInt64
  /-- Counts about the active first line. -/
  tallies : Tallies
  /-- When the tier is to be lowered, if that is scheduled. -/
  downgradeAt : Option Timestamp
  deriving DecidableEq

namespace Record

/-- The record of a new account. -/
def fresh (referrer : Option AccountId) (status : Status) : Record where
  status := status
  referrer := referrer
  active := false
  selfStake := .zero
  teamStake := .zero
  generations := List.replicate generationCount 0
  tallies := .zero
  downgradeAt := none

/-- The record with its generation counts padded to full length. -/
def normalize (r : Record) : Record :=
  { r with
    generations := r.generations ++ List.replicate (generationCount - r.generations.length) 0 }

/-- The number of active descendants in the generations from `first` to `last`. The generation
`first` is counted also when `last` is before it. The sum may be of any size. Added up in words of eight
bytes it would stop the program or wrap around where it leaves their range; after a history of operations
it is at most the number of accounts, so it never does. -/
def activeBetween (r : Record) (first last : Nat) : Nat :=
  (((r.generations.drop first).take (last - first + 1)).map UInt64.toNat).foldr (· + ·) 0

/-- The size of the active team: generations 1 to 13. -/
def activeTeamSize (r : Record) : Nat := r.activeBetween 1 13

/-- Whether the account is a root of the forest. -/
def isTopLevel (r : Record) : Bool := r.referrer.isNone

/-- Padding changes nothing about a record of full length. -/
theorem normalize_of_length {r : Record} (h : generationCount ≤ r.generations.length) :
    r.normalize = r := by
  simp [normalize, Nat.sub_eq_zero_of_le h]

/-- A padded record has full length. -/
theorem length_normalize (r : Record) : generationCount ≤ r.normalize.generations.length := by
  simp [normalize]
  omega

/-- Padding twice is padding once. -/
@[simp] theorem normalize_normalize (r : Record) : r.normalize.normalize = r.normalize :=
  normalize_of_length r.length_normalize

end Record

end ReferralForest

import ReferralForest.Record

/-!
# Status Requirements

What an account must show to hold a tier, and how a record measures up to it, criterion by
criterion. Stakes are compared in whole display units. A record's own tier plays no part.
-/

namespace ReferralForest

/-- What a criterion measures. -/
inductive Rule where
  /-- The stake of the account itself. -/
  | selfStake
  /-- The stake of its team. -/
  | teamStake
  /-- First-line referrals with a number of active referrals each. -/
  | referralsByReferrals
  /-- Teams of a given size. -/
  | teamsBySize
  deriving DecidableEq

/-- The name of a rule in documents. -/
def Rule.label : Rule → String
  | .selfStake => "SelfStake"
  | .teamStake => "NCoinsInStructure"
  | .referralsByReferrals => "NReferralsWithXReferralsEach"
  | .teamsBySize => "NTeamsOfXPeopleEach"

/-- One criterion and how far it is met. -/
structure Criterion where
  /-- What is measured. -/
  rule : Rule
  /-- The value asked for. -/
  target : Nat
  /-- The value found, at most the target. -/
  actual : Nat
  /-- The size each counted referral or team must have. -/
  parameter : Nat
  /-- Whether the value found reaches the target. -/
  met : Bool
  deriving DecidableEq

/-- The criterion that `found` be at least `target`. -/
def Criterion.atLeast (rule : Rule) (target found parameter : Nat) : Criterion where
  rule := rule
  target := target
  actual := min found target
  parameter := parameter
  met := target ≤ found

/-- A record measured against a tier. -/
structure Assessment where
  /-- Whether every criterion is met. -/
  overall : Bool
  /-- The criteria, in order. -/
  criteria : List Criterion
  deriving DecidableEq

/-- The assessment that consists of the given criteria. -/
def Assessment.ofCriteria (criteria : List Criterion) : Assessment :=
  ⟨criteria.all (·.met), criteria⟩

/-- What a tier asks of the accounts below. -/
inductive Structure where
  /-- Nothing. -/
  | unasked
  /-- Three active first-line referrals. -/
  | three
  /-- Three first-line referrals with three active referrals each. -/
  | threeByThree
  /-- Three teams of at least `leg` members, and three by three. -/
  | core (leg : Nat)
  deriving DecidableEq

/-- What a tier asks for, stakes in display units. -/
structure Requirement where
  /-- The least own stake. -/
  selfStake : Nat
  /-- The least team stake; zero asks for none. -/
  teamStake : Nat
  /-- What is asked of the accounts below. -/
  shape : Structure
  deriving DecidableEq

/-- The requirement of each tier; the two lowest have none. -/
def Status.requirement? : Status → Option Requirement
  | .unspecified | .new => none
  | .starter => some ⟨100, 0, .unasked⟩
  | .leader => some ⟨250, 20000, .three⟩
  | .guru => some ⟨600, 50000, .threeByThree⟩
  | .boss => some ⟨1500, 150000, .core 15⟩
  | .pro => some ⟨4000, 300000, .core 50⟩
  | .top => some ⟨10000, 800000, .core 100⟩
  | .mega => some ⟨30000, 2000000, .core 300⟩

/-- How many active referrals a first-line referral must have to count by three. -/
def byThree : Nat := 3

/-- The number of active first-line referrals whose team has at least `leg` members; a negative
count counts as none. -/
def Tallies.teamsOf (t : Tallies) (leg : Nat) : Nat :=
  ([(15, t.team15), (50, t.team50), (100, t.team100), (300, t.team300)].map fun (size, count) =>
    if leg ≤ size then count.toInt.toNat else 0).foldr (· + ·) 0

/-- The criteria on the accounts below. -/
def Structure.criteria (t : Tallies) : Structure → List Criterion
  | .unasked => []
  | .three => [.atLeast .referralsByReferrals 3 t.firstLine.toInt.toNat 0]
  | .threeByThree => [.atLeast .referralsByReferrals 3 t.firstLineByThree.toInt.toNat byThree]
  | .core leg =>
    [.atLeast .teamsBySize 3 (t.teamsOf leg) leg,
      .atLeast .referralsByReferrals 3 t.firstLineByThree.toInt.toNat byThree]

/-- The criteria of a requirement: team stake if asked for, own stake, structure. -/
def Requirement.criteria (r : Record) (q : Requirement) : List Criterion :=
  (if q.teamStake = 0 then []
    else [.atLeast .teamStake q.teamStake r.teamStake.displayUnits 0]) ++
  .atLeast .selfStake q.selfStake r.selfStake.displayUnits 0 :: q.shape.criteria r.tallies

/-- A record measured against a tier. A tier without a requirement is met by every record. -/
def Status.assess (s : Status) (r : Record) : Assessment :=
  .ofCriteria ((s.requirement?.map (·.criteria r)).getD [])

/-- Whether a record meets the requirement of a tier. -/
def Status.metBy (s : Status) (r : Record) : Bool :=
  (s.assess r).overall

end ReferralForest

import ReferralForest.Error
import ReferralForest.Fraction
import ReferralForest.Record

/-!
# Parameters

The award table, which gives each level of ancestors its share of a delegation, and the grace period
between failing a tier's requirement and losing the tier.
-/

namespace ReferralForest

/-- The parameters of the engine. -/
structure Params where
  /-- The share of a delegation for the ancestor at each level, the parent first. -/
  awards : Vector Fraction maxDepth
  /-- The grace period in seconds. -/
  gracePeriod : UInt64
  deriving DecidableEq

namespace Params

/-- The parameters of an engine nobody has configured: 15 percent in all, and seven days. -/
def default : Params where
  awards := #v[.percent 5, .percent 1, .percent 2, .percent 1, .percent 1, .percent 1, .percent 1,
    .percent 1, .permille 7, .permille 5, .permille 3, .permille 2, .permille 2, .permille 1]
  gracePeriod := 7 * 24 * 60 * 60

/-- The sum of the award table, from its first entry on. -/
def totalAward (p : Params) : Except Error Fraction :=
  match p.awards.toList.foldlM Fraction.add? .zero with
  | some total => .ok total
  | none => .error (.overflow "award total")

/-- Accepts parameters whose awards leave something of a delegation. -/
def validate (p : Params) : Except Error Unit :=
  match p.totalAward with
  | .error e => .error e
  | .ok total =>
    if total < Fraction.one then .ok ()
    else .error (.invalidParams
      s!"total network award must be less than 100% (got {total.text})")

end Params

end ReferralForest

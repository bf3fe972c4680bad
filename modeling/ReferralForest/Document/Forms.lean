import ReferralForest.AccountId
import ReferralForest.Document.Form
import ReferralForest.Forest.Fees
import ReferralForest.Forest.Membership
import ReferralForest.Forest.Parameters
import ReferralForest.Genesis
import ReferralForest.Requirement

/-!
# The Forms of the Engine

How the values of the engine stand in documents. Names of fields and labels of alternatives are part
of the format and are spelled out here.
-/

namespace ReferralForest.Form

/-- Accounts stand as their names. -/
def account : Form AccountId :=
  text.refine (fun t => (AccountId.parse t).toOption) AccountId.text

/-- Times stand as seconds. -/
def timestamp : Form Timestamp :=
  word64.refine (fun seconds => some ⟨seconds⟩) Timestamp.seconds

/-- Amounts stand as numbers of base units. -/
def amount : Form Amount :=
  (naturalBelow doubleWordSize).refine Amount.ofNat? Amount.units

/-- Coins. -/
def coin : Form Coin :=
  ((Fields.required "denom" text).and (.required "amount" amount)).object.refine
    (fun (denom, amount) => some ⟨denom, amount⟩) (fun c => (c.denom, c.amount))

/-- Fractions; they need not stand in lowest terms. -/
def fraction : Form Fraction :=
  ((Fields.required "num" word64).and (.required "den" word64)).object.refine
    (fun (num, den) => (Fraction.ofParts num den).toOption) (fun f => (.ofNat f.num, .ofNat f.den))

/-- Tiers. -/
def status : Form Status :=
  labels Status.label (.unspecified :: Status.earned)

/-- Events. -/
def event : Form Event :=
  labels Event.label [.stakeChanged, .statusUpdated]

/-- Counts about the active first line. -/
def tallies : Form Tallies :=
  ((Fields.required "first_line" int64).and <| (Fields.required "first_line_by3" int64).and <|
    (Fields.required "team0" int64).and <| (Fields.required "team15" int64).and <|
    (Fields.required "team50" int64).and <| (Fields.required "team100" int64).and <|
    .required "team300" int64).object.refine
    (fun (a, b, c, d, e, f, g) => some ⟨a, b, c, d, e, f, g⟩)
    (fun t => (t.firstLine, t.firstLineByThree, t.team0, t.team15, t.team50, t.team100, t.team300))

/-- Records. -/
def record : Form Record :=
  ((Fields.required "status" status).and <| (Fields.optional "referrer" account).and <|
    (Fields.required "active" bool).and <| (Fields.required "self_delegated" amount).and <|
    (Fields.required "team_delegated" amount).and <|
    (Fields.required "active_ref_counts" word64.list).and <|
    (Fields.required "active_count" tallies).and <|
    .optional "status_downgrade_at" timestamp).object.refine
    (fun (a, b, c, d, e, f, g, h) => some ⟨a, b, c, d, e, f, g, h⟩)
    (fun r => (r.status, r.referrer, r.active, r.selfStake, r.teamStake, r.generations, r.tallies,
      r.downgradeAt))

/-- Parameters. They need not be acceptable. -/
def params : Form Params :=
  ((Fields.required "delegating_award" (vector maxDepth fraction)).and <|
    .required "status_downgrade_period_secs" word64).object.refine
    (fun (awards, period) => some ⟨awards, period⟩) (fun p => (p.awards, p.gracePeriod))

/-- Members of genesis documents. -/
def member : Form Member :=
  ((Fields.required "address" text).and (.required "status" status)).object.refine
    (fun (address, status) => some ⟨address, status⟩) (fun m => (m.address, m.status))

/-- Groups of genesis documents. -/
def group : Form Group :=
  ((Fields.required "referrer" text).and (.required "referrals" member.list)).object.refine
    (fun (referrer, referrals) => some ⟨referrer, referrals⟩) (fun g => (g.referrer, g.referrals))

/-- Scheduled downgrades of genesis documents. -/
def pendingDowngrade : Form PendingDowngrade :=
  ((Fields.required "account" text).and <| (Fields.required "current" status).and <|
    .required "time" timestamp).object.refine
    (fun (account, current, time) => some ⟨account, current, time⟩)
    (fun d => (d.account, d.current, d.time))

/-- Genesis documents. They need not be valid. -/
def genesis : Form Genesis :=
  ((Fields.required "params" params).and <|
    (Fields.optional "top_level_accounts" member.list).and <|
    (Fields.defaulted "other_accounts" group.list []).and <|
    .defaulted "downgrades" pendingDowngrade.list []).object.refine
    (fun (params, roots, groups, downgrades) => some ⟨params, roots, groups, downgrades⟩)
    (fun g => (g.params, g.roots, g.groups, g.downgrades))

/-- An announced downgrade. -/
def downgradeNotice : Form (AccountId × Timestamp) :=
  ((Fields.required "account" account).and (.required "at" timestamp)).object

/-- A canceled downgrade. -/
def cancelNotice : Form AccountId :=
  (Fields.required "account" account).object

/-- A change of tier. -/
def statusNotice : Form (AccountId × Status × Status) :=
  ((Fields.required "account" account).and <| (Fields.required "before" status).and <|
    .required "after" status).object

/-- A payment. -/
def feeNotice : Form (AccountId × AccountId × Coin) :=
  ((Fields.required "from" account).and <| (Fields.required "to" account).and <|
    .required "amount" coin).object

/-- Notices. -/
def notice : Form Notice where
  read d :=
    ((variant? "StatusWillBeDowngraded" downgradeNotice d).map fun (a, t) =>
      .willBeDowngraded a t).or <|
    ((variant? "StatusDowngradeCanceled" cancelNotice d).map .downgradeCanceled).or <|
    ((variant? "StatusUpdated" statusNotice d).map fun (a, before, after) =>
      .statusUpdated a before after).or <|
    (variant? "ReferralFeePaid" feeNotice d).map fun (payer, payee, coin) =>
      .feePaid payer payee coin
  write
    | .willBeDowngraded a t => variant "StatusWillBeDowngraded" downgradeNotice (a, t)
    | .downgradeCanceled a => variant "StatusDowngradeCanceled" cancelNotice a
    | .statusUpdated a before after => variant "StatusUpdated" statusNotice (a, before, after)
    | .feePaid payer payee coin => variant "ReferralFeePaid" feeNotice (payer, payee, coin)

/-- Requests to add a referral. -/
def registration : Form Registration :=
  ((Fields.required "referrer" text).and (.required "referral" text)).object.refine
    (fun (referrer, referral) => some ⟨referrer, referral⟩) (fun r => (r.referrer, r.referral))

/-- Requests to replace the parameters. -/
def paramsUpdate : Form ParamsUpdate :=
  ((Fields.required "authority" text).and (.required "params" params)).object.refine
    (fun (sender, params) => some ⟨sender, params⟩) (fun u => (u.sender, u.params))

/-- What criteria measure. -/
def rule : Form Rule :=
  labels Rule.label [.selfStake, .teamStake, .referralsByReferrals, .teamsBySize]

/-- Criteria. Their numbers take 64 bits. -/
def criterion : Form Criterion :=
  let number := naturalBelow UInt64.size
  ((Fields.required "rule" rule).and <| (Fields.required "target_value" number).and <|
    (Fields.required "actual_value" number).and <| (Fields.required "parameter_x" number).and <|
    .required "met" bool).object.refine
    (fun (rule, target, actual, parameter, met) => some ⟨rule, target, actual, parameter, met⟩)
    (fun c => (c.rule, c.target, c.actual, c.parameter, c.met))

/-- Assessments. -/
def assessment : Form Assessment :=
  ((Fields.required "overall" bool).and (.required "criteria" criterion.list)).object.refine
    (fun (overall, criteria) => some ⟨overall, criteria⟩) (fun a => (a.overall, a.criteria))

/-- Shares of a delegation. -/
def fee : Form Fee :=
  ((Fields.required "beneficiary" account).and (.required "ratio" fraction)).object.refine
    (fun (beneficiary, ratio) => some ⟨beneficiary, ratio⟩) (fun f => (f.beneficiary, f.ratio))

/-- How a delegation is shared out. -/
def feeSplit : Form FeeSplit :=
  ((Fields.required "fees" fee.list).and (.required "burn" fraction)).object.refine
    (fun (fees, burn) => some ⟨fees, burn⟩) (fun s => (s.fees, s.burn))

/-- Stakes of networks. -/
def networkStake : Form Amount :=
  (Fields.required "delegated" amount).object

end ReferralForest.Form

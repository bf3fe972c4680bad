import ReferralForest.Host
import ReferralForest.Program.Records

/-!
# Delegation Fees

A delegation pays a share to each of up to fourteen ancestors. The ancestor at a level gets the share
of that level if its tier opens enough lines; the shares nobody gets are burned. What is left over
belongs to the delegator.
-/

namespace ReferralForest

/-- A share of a delegation that an account gets. -/
structure Fee where
  /-- Who gets it. -/
  beneficiary : AccountId
  /-- Its size. -/
  ratio : Fraction
  deriving DecidableEq

/-- How a delegation is shared out. -/
structure FeeSplit where
  /-- What ancestors get, nearest first. -/
  fees : List Fee
  /-- What is burned. -/
  burn : Fraction
  deriving DecidableEq

namespace Forest

/-- Adds a share to what is burned. -/
def addBurn (burn share : Fraction) : Program Fraction :=
  match burn.add? share with
  | some sum => pure sum
  | none => .fail (.overflow "burn share")

/-- Hands out the shares from a level on, while `burn` is to be burned so far. -/
def splitFrom : (level : Nat) → List Fraction → Option AccountId → (burn : Fraction) →
    Program FeeSplit
  | _, [], _, burn => pure ⟨[], burn⟩
  | level, share :: rest, none, burn => do
    splitFrom (level + 1) rest none (← addBurn burn share)
  | level, share :: rest, some ancestor, burn => do
    let r ← Program.record ancestor
    if level < r.status.linesOpened then
      let split ← splitFrom (level + 1) rest r.referrer burn
      return if share.isZero then split else { split with fees := ⟨ancestor, share⟩ :: split.fees }
    else splitFrom (level + 1) rest r.referrer (← addBurn burn share)

/-- **How a delegation of an account is shared out** under the stored parameters. -/
def feeSplit (account : AccountId) : Program FeeSplit := do
  let p ← Program.params
  let r ← Program.record account
  splitFrom 0 p.awards.toList r.referrer .zero

/-- Moves coins of a sender to the module account and burns them there. -/
def burnCoins (host : Host) (sender : List UInt8) (coins : List Coin) : Program Unit := do
  host.transfer (.toModule sender host.moduleAccount coins)
  host.transfer (.burn host.moduleAccount coins)

/-- The payouts for the fees that come to at least one unit, told one by one, and their sum. -/
def preparePayouts (host : Host) (payer : AccountId) (total : Amount) :
    List Fee → (paid : Amount) → Program (List Payout × Amount)
  | [], paid => pure ([], paid)
  | fee :: rest, paid => do
    let units := fee.ratio.mulFloor total.units
    if units = 0 then preparePayouts host payer total rest paid
    else
      match Amount.ofNat? units with
      | none => .fail (.overflow "fee total")
      | some amount =>
        match paid.add? amount with
        | none => .fail (.overflow "fee total")
        | some paid =>
          let coin : Coin := ⟨host.bondDenom, amount⟩
          let address ← .ofExcept (host.addressOf fee.beneficiary)
          Program.tell (.notice (.feePaid payer fee.beneficiary coin))
          let (payouts, paid) ← preparePayouts host payer total rest paid
          return (⟨address, [coin]⟩ :: payouts, paid)

/-- Burns the unassigned share of a delegation. -/
def burnShare (host : Host) (sender : List UInt8) (amount : Amount) : Program Unit :=
  if amount.units = 0 then pure () else burnCoins host sender [⟨host.bondDenom, amount⟩]

/-- **Pays the fees on a delegation** of `total` units by an account: burns the unassigned share,
pays each ancestor in one transfer, and gives what is left. -/
def payFees (host : Host) (account : AccountId) (total : Amount) : Program Amount := do
  let split ← feeSplit account
  let sender ← .ofExcept (host.addressOf account)
  match Amount.ofNat? (split.burn.mulFloor total.units) with
  | none => .fail (.overflow "fee remainder")
  | some burned =>
    burnShare host sender burned
    let (payouts, paid) ← preparePayouts host account total split.fees .zero
    if paid.units ≠ 0 then
      host.transfer (.payOut sender [⟨host.bondDenom, paid⟩] payouts)
    match (total.sub? burned).bind (·.sub? paid) with
    | some rest => return rest
    | none => .fail (.overflow "fee remainder")

end Forest

end ReferralForest

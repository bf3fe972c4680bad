import ReferralForest.Params

/-!
# Genesis Documents

A whole forest as a document: the parameters, the roots, the referrals of each referrer, and the
scheduled downgrades. Accounts stand in it as texts, since a document comes from outside.
-/

namespace ReferralForest

/-- An account and its tier. -/
structure Member where
  /-- The address of the account. -/
  address : String
  /-- The tier it holds. -/
  status : Status
  deriving DecidableEq

/-- A referrer and its referrals. -/
structure Group where
  /-- The address of the referrer. -/
  referrer : String
  /-- The referrals. -/
  referrals : List Member
  deriving DecidableEq

/-- A scheduled downgrade. -/
structure PendingDowngrade where
  /-- The address of the account. -/
  account : String
  /-- The tier it holds. -/
  current : Status
  /-- When it is to lose that tier. -/
  time : Timestamp
  deriving DecidableEq

/-- A whole forest. -/
structure Genesis where
  /-- The parameters. -/
  params : Params
  /-- The roots; a document that leaves them out is invalid. -/
  roots : Option (List Member)
  /-- The other accounts, by referrer. -/
  groups : List Group
  /-- The scheduled downgrades. -/
  downgrades : List PendingDowngrade
  deriving DecidableEq

namespace Genesis

/-- An error about the account of an address. An address that names no account is the error then. -/
def about (error : AccountId → Error) (address : String) : Error :=
  match AccountId.parse address with
  | .ok account => error account
  | .error fault => .invalidAddress fault.message

/-- Declares members; each address may be declared once. -/
def declare : (seen : List String) → List Member → Except Error (List String)
  | seen, [] => .ok seen
  | seen, m :: rest =>
    if m.address ∈ seen then .error (about .alreadyExists m.address)
    else declare (m.address :: seen) rest

/-- Declares groups; each referrer must be declared before its referrals. -/
def declareGroups : (seen : List String) → List Group → Except Error (List String)
  | seen, [] => .ok seen
  | seen, g :: rest =>
    if g.referrer.isEmpty then .error .emptyReferrer
    else if g.referrer ∈ seen then do declareGroups (← declare seen g.referrals) rest
    else .error (about .referrerNotFound g.referrer)

/-- **Checks a document by itself**: the roots are there, the parameters are acceptable, no account
is declared twice, every referrer before its referrals, and only declared accounts are scheduled. -/
def validate (g : Genesis) : Except Error Unit :=
  match g.roots with
  | none => .error (.invalidParams "empty top level accounts set")
  | some roots => do
    g.params.validate
    let seen ← declareGroups (← declare [] roots) g.groups
    match g.downgrades.find? fun d => d.account ∉ seen with
    | some d => .error (about .notFound d.account)
    | none => .ok ()

end Genesis

end ReferralForest

import ReferralForest.Notice
import ReferralForest.Store.Basic

/-!
# Errors of Operations

Why an operation on the forest fails. Failures inside a record update or a listener call are wrapped
with the account they concern; running out of store calls is *fatal* and is never wrapped, so that
whoever ran the operation sees it as it is.
-/

namespace ReferralForest

/-- The step of a record update at which it failed. -/
inductive UpdatePhase where
  | load | mutate | statusCheck
  deriving DecidableEq

/-- The wording of an update step. -/
def UpdatePhase.name : UpdatePhase → String
  | load => "load"
  | mutate => "mutate"
  | statusCheck => "status check"

/-- Why an operation fails. -/
inductive Error where
  /-- The account has no record. -/
  | notFound (account : AccountId)
  /-- The account has a record already. -/
  | alreadyExists (account : AccountId)
  /-- No referrer is named. -/
  | emptyReferrer
  /-- The referrer named has no record. -/
  | referrerNotFound (account : AccountId)
  /-- A text is no address. -/
  | invalidAddress (reason : String)
  /-- A number denotes no tier that can be asked about. -/
  | invalidStatus (number : Nat)
  /-- Parameters are unusable. -/
  | invalidParams (reason : String)
  /-- The sender may not do this. -/
  | unauthorized (expected got : String)
  /-- A quantity leaves its range. -/
  | overflow (quantity : String)
  /-- Stored bytes have no meaning. -/
  | codec (reason : String)
  /-- The bank refuses. -/
  | bank (reason : String)
  /-- A listener fails. -/
  | hook (reason : String)
  /-- The limit on store calls is reached. -/
  | exhausted (reason : String)
  /-- The referrers of an account do not end in a root: a walk along them has taken more steps than its
  bound allows. Without the bound the walk would go around forever instead of failing. -/
  | referrerCycle (account : AccountId)
  /-- Updating a record failed. -/
  | update (account : AccountId) (phase : UpdatePhase) (cause : Error)
  /-- Calling the listeners of an event failed. -/
  | callback (event : Event) (account : AccountId) (cause : Error)
  /-- The store refuses a call. -/
  | store (fault : Store.Fault)
  deriving DecidableEq

namespace Error

/-- The wording of an error, without its cause. -/
def message : Error → String
  | notFound account => s!"account {account.text} is out of the referral structure"
  | alreadyExists account => s!"account {account.text} already exists"
  | emptyReferrer => "referrer cannot be empty"
  | referrerNotFound account => s!"referrer {account.text} does not exist"
  | invalidAddress reason => s!"invalid address: {reason}"
  | invalidStatus number => s!"there is no such status: {number}"
  | invalidParams reason => s!"invalid params: {reason}"
  | unauthorized expected got => s!"invalid authority: expected {expected}, got {got}"
  | overflow quantity => s!"arithmetic overflow in {quantity}"
  | codec reason => s!"record codec error: {reason}"
  | bank reason => s!"bank error: {reason}"
  | hook reason => s!"hook failed: {reason}"
  | exhausted reason => s!"resource limit exhausted: {reason}"
  | referrerCycle account => s!"the referrers of {account.text} form a cycle"
  | update account phase _ => s!"cannot update {account.text} ({phase.name})"
  | callback event account _ => s!"{event.name} callback failed for {account.text}"
  | store fault => s!"store error: {fault.message}"

/-- The wordings of the causes of an error, from the outside in. -/
def causes : Error → List String
  | update _ _ cause | callback _ _ cause => cause.message :: cause.causes
  | bank reason => [reason]
  | store fault => [fault.message]
  | _ => []

/-- Whether an error must reach the outside as it is. -/
def isFatal : Error → Bool
  | exhausted _ => true
  | _ => false

/-- The innermost error. -/
def root : Error → Error
  | update _ _ cause | callback _ _ cause => cause.root
  | e => e

/-- The error of an update that failed with `e`. -/
def inUpdate (account : AccountId) (phase : UpdatePhase) (e : Error) : Error :=
  if e.isFatal then e else update account phase e

/-- The error of a listener call that failed with `e`. -/
def inCallback (target : Callback) (e : Error) : Error :=
  if e.isFatal then e else callback target.event target.account e

/-- A refusal of the store, as an error of the operation that met it. -/
def ofStore : Store.Fault → Error
  | .exhausted reason => exhausted reason
  | fault => store fault

end Error

end ReferralForest

import ReferralForest.Forest.Membership

/-!
# Queries

What outsiders may ask. Accounts are given by address; every failure is reported as one of three
kinds, judged by its innermost cause.
-/

namespace ReferralForest

/-- Why a query fails. -/
inductive QueryError where
  /-- Something asked about is not there. -/
  | notFound (reason : String)
  /-- The query makes no sense. -/
  | invalidArgument (reason : String)
  /-- Anything else. -/
  | internal (reason : String)
  deriving DecidableEq

namespace QueryError

/-- The wording of a query error. -/
def message : QueryError → String
  | notFound reason => s!"not found: {reason}"
  | invalidArgument reason => s!"invalid argument: {reason}"
  | internal reason => s!"internal error: {reason}"

/-- A failed operation, as a failed query. -/
def ofError (e : Error) : QueryError :=
  match e.root with
  | .notFound _ | .referrerNotFound _ => notFound e.message
  | .invalidAddress _ | .invalidStatus _ | .emptyReferrer => invalidArgument e.message
  | _ => internal e.message

end QueryError

/-- A query: the program that answers it, or what is wrong with it. -/
abbrev Query (α : Type) := Except QueryError (Program α)

namespace Query

/-- A query about the account of an address. -/
def about {α : Type} (host : Host) (address : String) (ask : AccountId → Program α) : Query α :=
  match host.parseAddress address with
  | .ok account => .ok (ask account)
  | .error e => .error (.invalidArgument e.message)

/-- The answer to a query, and the world after it. -/
def run {α : Type} (query : Query α) (w : World) : Except QueryError α × World :=
  match query with
  | .error e => (.error e, w)
  | .ok program =>
    let (answer, w) := w.run program
    (answer.mapError QueryError.ofError, w)

variable (host : Host) (address : String)

/-- Whether an address has a record. What is no address has none. -/
def hasRecord : Query Bool :=
  match host.parseAddress address with
  | .ok account => .ok (Program.hasRecord account)
  | .error _ => .ok (pure false)

/-- The referrals of an address. The empty address has none. -/
def children : Query (List AccountId) :=
  if address.isEmpty then .ok (pure []) else about host address Forest.children

/-- The record of an address. -/
def record : Query Record := about host address Program.record

/-- The stake of an address and all its descendants. -/
def networkStake : Query Amount := about host address Program.networkStake

/-- An address measured against a tier. -/
def checkStatus (s : Status) : Query Assessment :=
  about host address fun account => Program.checkStatus account s

/-- The tier of an address. -/
def status : Query Status := about host address Program.status

/-- The referrer of an address. -/
def parent? : Query (Option AccountId) := about host address Forest.parent?

/-- The parameters. -/
def params : Query Params := .ok Program.params

end Query

end ReferralForest

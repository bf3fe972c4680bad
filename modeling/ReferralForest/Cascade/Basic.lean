import ReferralForest.Host
import ReferralForest.Program.Records

/-!
# Cascades

A change to one account spreads to others. A *cascade* is the course of such a change: a dialogue
that loads and puts records, announces events, and keeps the downgrade queue in step. It works on
whole records and never sees keys or bytes.

Cascades are *buffered*: loading gives the record put last, else the stored one, and putting only
adds to the batch being prepared. `Cascade.commit` runs a cascade on an empty batch and then writes
the records, in account order, and announces each event once, in order of account and event. Queue
and relation entries are written at once.

## Main definitions

* `Cascade.Step`, `Cascade` — the requests and the cascades made of them.
* `Cascade.update` — reads, changes and puts one record.
* `Cascade.refresh` — schedules, cancels or promotes according to what the record is worth now.
* `Cascade.buffered`, `Cascade.commit` — cascades as programs.
-/

namespace ReferralForest

namespace Cascade

/-- What a cascade asks for. -/
inductive Step where
  /-- The record of an account. -/
  | load (account : AccountId)
  /-- That an account be given a record. -/
  | put (account : AccountId) (record : Record)
  /-- That an event be announced at the end. -/
  | announce (callback : Callback)
  /-- That a notice be told. -/
  | tell (notice : Notice)
  /-- The parameters. -/
  | params
  /-- That an account be put into the downgrade queue. -/
  | enqueue (time : Timestamp) (account : AccountId)
  /-- That an account be taken out of the downgrade queue. -/
  | dequeue (time : Timestamp) (account : AccountId)
  /-- That an account be marked as a referral of another. -/
  | relate (parent child : AccountId)

/-- What a step is answered with. Stored bytes without meaning and refusals of the store are answers,
so that the cascade can say where it met them. -/
def Step.Answer : Step → Type
  | load _ => Except Error (Option Record)
  | params => Except Error Params
  | enqueue .. | dequeue .. | relate .. => Except Error Unit
  | put .. | announce _ | tell _ => Unit

end Cascade

/-- The course of a change to several records. -/
abbrev Cascade := Dialogue Cascade.Step Cascade.Step.Answer Error

namespace Cascade

variable {α β : Type}

/-! ### Steps -/

/-- The record of an account, if it has one. -/
def load (account : AccountId) : Cascade (Option Record) := do
  let found : Except Error (Option Record) ← .request (Step.load account)
  .ofExcept found

/-- Gives an account a record. -/
def put (account : AccountId) (r : Record) : Cascade Unit := .request (Step.put account r)

/-- Announces an event about an account, once the records are written. -/
def announce (account : AccountId) (event : Event) : Cascade Unit :=
  .request (Step.announce ⟨account, event⟩)

/-- Tells a notice. -/
def tell (notice : Notice) : Cascade Unit := .request (Step.tell notice)

/-- The parameters. -/
def params : Cascade Params := do
  let found : Except Error Params ← .request Step.params
  .ofExcept found

/-- Puts an account into the downgrade queue. -/
def enqueue (time : Timestamp) (account : AccountId) : Cascade Unit := do
  let done : Except Error Unit ← .request (Step.enqueue time account)
  .ofExcept done

/-- Takes an account out of the downgrade queue. -/
def dequeue (time : Timestamp) (account : AccountId) : Cascade Unit := do
  let done : Except Error Unit ← .request (Step.dequeue time account)
  .ofExcept done

/-- Marks an account as a referral of another. -/
def relate (parent child : AccountId) : Cascade Unit := do
  let done : Except Error Unit ← .request (Step.relate parent child)
  .ofExcept done

/-- The value of a checked computation; the quantity that left its range is named if there is
none. -/
def checked (quantity : String) : Option α → Cascade α
  | some a => pure a
  | none => .fail (.overflow quantity)

/-! ### Status -/

/-- The tier a record climbs to from `s`: the last one up to which it meets all. -/
def climb (r : Record) (s : Status) : Status :=
  ((Status.earned.filter fun t => s < t).takeWhile fun t => t.metBy r).getLastD s

/-- Schedules the loss of the record's tier, unless it is scheduled already. -/
def scheduleDowngrade (now : Timestamp) (account : AccountId) (r : Record) : Cascade Record :=
  match r.downgradeAt with
  | some _ => pure r
  | none => do
    let p ← params
    let time ← checked "downgrade time" (now.add? p.gracePeriod)
    enqueue time account
    tell (.willBeDowngraded account time)
    return { r with downgradeAt := some time }

/-- Cancels the loss of the record's tier, if it is scheduled. -/
def cancelDowngrade (account : AccountId) (r : Record) : Cascade Record :=
  match r.downgradeAt with
  | none => pure r
  | some time => do
    dequeue time account
    tell (.downgradeCanceled account)
    return { r with downgradeAt := none }

/-- Raises the record's tier as far as the record reaches. -/
def promote (account : AccountId) (r : Record) : Cascade Record := do
  let reached := climb r r.status
  if r.status < reached then
    tell (.statusUpdated account r.status reached)
    announce account .statusUpdated
    return { r with status := reached }
  else return r

/-- **Settles the status of a record.** A record that fails its tier's requirement is scheduled to
lose the tier; one that meets it is unscheduled and promoted. -/
def refresh (now : Timestamp) (account : AccountId) (r : Record) : Cascade Record :=
  if r.status.metBy r then cancelDowngrade account r >>= promote account
  else scheduleDowngrade now account r

/-! ### Updates -/

/-- **Reads, changes and puts one record**, and gives what the change gave. An account without a
record is left alone. With a time in `checkAt`, the status of the changed record is settled as of
that time. A failure says at which account and in which phase it happened. -/
def update (checkAt : Option Timestamp) (account : AccountId)
    (change : Record → Cascade (β × Record)) : Cascade (Option β) := do
  match ← (load account).mapError (Error.inUpdate account .load) with
  | none => return none
  | some found =>
    let (result, r) ← (change found.normalize).mapError (Error.inUpdate account .mutate)
    let r ← match checkAt with
      | some now => (refresh now account r).mapError (Error.inUpdate account .statusCheck)
      | none => pure r
    put account r
    return some result

/-! ### As programs -/

/-- Serves a step by way of the batch being prepared. -/
def Step.serve : (step : Step) → Program step.Answer
  | .load account => do
    let batch ← Program.batch
    match batch.records.get? account with
    | some r => return .ok (some r)
    | none => (Program.record? account).attempt
  | .put account r => do
    let batch ← Program.batch
    Program.keep { batch with records := batch.records.insert account r }
  | .announce callback => do
    let batch ← Program.batch
    Program.keep { batch with callbacks := batch.callbacks.insert callback () }
  | .tell notice => Program.tell (.notice notice)
  | .params => Program.params.attempt
  | .enqueue time account => (Program.schedule time account).attempt
  | .dequeue time account => (Program.unschedule time account).attempt
  | .relate parent child => (Program.set (Slot.relation parent child).key marker).attempt

/-- A cascade that adds to the batch being prepared. -/
def buffered (c : Cascade α) : Program α := c.through Step.serve

/-- Writes the records of a batch, in account order. -/
def writeAll : List (AccountId × Record) → Program Unit
  | [] => pure ()
  | (account, r) :: rest => do
    Program.setRecord account r
    writeAll rest

/-- Announces the events of a batch, in order, up to the first listener that fails. -/
def announceAll (host : Host) : List (Callback × Unit) → Program Unit
  | [] => pure ()
  | (target, ()) :: rest => do
    host.announce target
    announceAll host rest

/-- Writes the batch being prepared and announces its events. -/
def flush (host : Host) : Program Unit := do
  let batch ← Program.batch
  Program.keep .empty
  writeAll batch.records.toList
  announceAll host batch.callbacks.toList

/-- **Carries a cascade out**: prepares a batch of its own, then writes and announces it. -/
def commit (host : Host) (c : Cascade α) : Program α := do
  Program.keep .empty
  let result ← c.buffered
  flush host
  return result

end Cascade

end ReferralForest

import ReferralForest.Program.Dialogue
import ReferralForest.Record
import ReferralForest.Store.Slot

/-!
# Programs

The operations of the engine are *programs*: dialogues whose requests are the calls on a store, the
lines of the log, and the batch of records that is being prepared. A program does not know whether
its store counts calls, lies on a disk, or is a branch. Running a program in a `World` answers each
call in turn. A store may refuse a call, and then the fault is the answer: the functions here fail with
it, and what stands around them in a program may say where that was.

## Main definitions

* `Call`, `Program` — the requests and the programs made of them.
* `World` — a store, the batch being prepared, and the log so far.
* `World.run` — carries a program out.
* `World.transact` — carries a program out in a branch of its own, which is committed or dropped.
-/

namespace ReferralForest

/-- What a recording listener notes down when it is called. -/
structure Hearing where
  /-- Which listener. -/
  listener : Nat
  /-- The event it was told. -/
  event : Event
  /-- The account the event is about. -/
  account : AccountId
  /-- The record of the account, if the listener looked for one. -/
  seen : Option (Option Record)
  deriving DecidableEq

/-- A line of the log: everything an operation does outside the store. -/
inductive Entry where
  /-- The operation tells something. -/
  | notice (notice : Notice)
  /-- The bank has done something. -/
  | transfer (transfer : Transfer)
  /-- A listener was called. -/
  | hearing (hearing : Hearing)
  deriving DecidableEq

/-- Records waiting to be written, and events to be announced once they are. -/
structure Batch where
  /-- The records, by account. -/
  records : SortedMap AccountId Record
  /-- The events, each once. -/
  callbacks : SortedMap Callback Unit
  deriving DecidableEq

/-- Nothing to write or to announce. -/
def Batch.empty : Batch := ⟨.empty, .empty⟩

/-- What a program asks for. -/
inductive Call where
  /-- The value at a key. -/
  | get (key : Key)
  /-- That a key be given a value, or deleted. -/
  | write (write : Store.Write)
  /-- The entries of a range. -/
  | range (range : KeyRange)
  /-- The number of keys in the store, which bounds walks over it. -/
  | size
  /-- That a line be added to the log. -/
  | tell (entry : Entry)
  /-- The batch being prepared. -/
  | batch
  /-- That the batch be replaced. -/
  | keep (batch : Batch)

/-- What a call is answered with. Calls on the store can be refused. -/
def Call.Answer : Call → Type
  | get _ => Except Store.Fault (Option Value)
  | write _ => Except Store.Fault Unit
  | range _ => Except Store.Fault (List (Key × Value))
  | size => Nat
  | batch => Batch
  | tell _ | keep _ => Unit

/-- A computation made of calls. -/
abbrev Program := Dialogue Call Call.Answer Error

/-- The surroundings of a program. -/
structure World where
  /-- The store. -/
  store : Store
  /-- The batch being prepared. -/
  batch : Batch
  /-- The log, oldest line first. -/
  log : List Entry
  deriving DecidableEq

namespace World

/-- A store with nothing prepared and nothing told. -/
def ofStore (store : Store) : World := ⟨store, .empty, []⟩

/-- The answer of the store to a call, and the world after it. -/
def onStore {α : Type} (w : World) (answer : Except Store.Fault α × Store) :
    Except Error (Except Store.Fault α) × World :=
  (.ok answer.1, { w with store := answer.2 })

/-- The answer to a call, and the world after it. -/
def answer (w : World) : (call : Call) → Except Error call.Answer × World
  | .get key => w.onStore (w.store.get key)
  | .write write => w.onStore (w.store.write write)
  | .range range => w.onStore (w.store.range range)
  | .size => (.ok w.store.size, w)
  | .tell entry => (.ok (), { w with log := w.log ++ [entry] })
  | .batch => (.ok w.batch, w)
  | .keep batch => (.ok (), { w with batch })

/-- The notices in the log. -/
def notices (w : World) : List Notice :=
  w.log.filterMap fun
    | .notice n => some n
    | _ => none

/-- The transfers in the log. -/
def transfers (w : World) : List Transfer :=
  w.log.filterMap fun
    | .transfer t => some t
    | _ => none

/-- The listener calls in the log. -/
def hearings (w : World) : List Hearing :=
  w.log.filterMap fun
    | .hearing h => some h
    | _ => none

end World

/-- **Carries a program out**, up to its end. -/
def World.run {α : Type} (w : World) (p : Program α) : Except Error α × World :=
  p.runWith (fun call w => w.answer call) w

namespace Program

/-- What the store has answered. A refusal is an error of the program. -/
def accepted {α : Type} (answer : Except Store.Fault α) : Program α :=
  .ofExcept (answer.mapError Error.ofStore)

/-- The value at a key. -/
def get (key : Key) : Program (Option Value) :=
  Dialogue.request (Call.get key) >>= accepted

/-- Carries out a write. -/
def write (w : Store.Write) : Program Unit :=
  Dialogue.request (Call.write w) >>= accepted

/-- Whether a key has a value. -/
def has (key : Key) : Program Bool := Option.isSome <$> get key

/-- Gives a key a value. -/
def set (key : Key) (value : Value) : Program Unit := write (key, some value)

/-- Deletes a key. -/
def delete (key : Key) : Program Unit := write (key, none)

/-- The entries of a range, in key order. -/
def range (range : KeyRange) : Program (List (Key × Value)) :=
  Dialogue.request (Call.range range) >>= accepted

/-- The number of keys in the store. -/
def size : Program Nat := .request Call.size

/-- Adds a line to the log. -/
def tell (entry : Entry) : Program Unit := .request (Call.tell entry)

/-- The batch being prepared. -/
def batch : Program Batch := .request Call.batch

/-- Replaces the batch being prepared. -/
def keep (batch : Batch) : Program Unit := .request (Call.keep batch)

end Program

/-- Makes a run in a branch of its own, which is committed if the run succeeds and dropped if it
fails. A store that refuses the commit makes the whole fail. -/
def World.inBranch {ε α : Type} (refused : Store.Fault → ε) (run : World → Except ε α × World)
    (w : World) : Except ε α × World :=
  match run { w with store := w.store.branch } with
  | (.error e, w) => (.error e, { w with store := w.store.discard })
  | (.ok a, w) =>
    match w.store.commit with
    | (.ok (), store) => (.ok a, { w with store })
    | (.error fault, store) => (.error (refused fault), { w with store })

/-- **A transaction.** Carries a program out in a branch of its own. -/
def World.transact {α : Type} (w : World) (p : Program α) : Except Error α × World :=
  w.inBranch Error.ofStore fun w => w.run p

end ReferralForest

import ReferralForest.Proofs.Program.Run
import ReferralForest.Proofs.Store.Keys

/-!
# Orderly Programs

A refusal that is fatal has to reach the outside as it is: the program that meets it ends there and
then, with the error of that refusal. That is a statement about what a program does after each answer
it can get, so it is made of the program as a tree, for all answers, and handed from the parts of a
program to the whole.

## Main definitions

* `Dialogue.Heeds` — the dialogues that ask only what is allowed and end at a fatal answer.
* `Program.Orderly` — the programs that call the store with keys that are not empty, and heed its
  fatal refusals.
* `Host.Aloof` — the hosts none of whose listeners calls the store.
-/

namespace ReferralForest

namespace Dialogue

variable {Request : Type} {Answer : Request → Type} {ε ε' α β : Type}
  {allowed : Request → Prop} {fatal : (q : Request) → Answer q → Option ε}

/-- **The dialogues that heed** what is `fatal`: they ask only what is `allowed`, and an answer that is
fatal is followed by nothing but its error. -/
def Heeds (allowed : Request → Prop) (fatal : (q : Request) → Answer q → Option ε) :
    Dialogue Request Answer ε α → Prop
  | done _ => True
  | fail _ => True
  | ask q next => allowed q ∧ ∀ answer,
      (next answer).Heeds allowed fatal ∧ ∀ e, fatal q answer = some e → next answer = fail e

/-- One dialogue after another. -/
theorem Heeds.bind {d : Dialogue Request Answer ε α} {f : α → Dialogue Request Answer ε β}
    (hd : d.Heeds allowed fatal) (hf : ∀ a, (f a).Heeds allowed fatal) :
    (d >>= f).Heeds allowed fatal := by
  induction d with
  | done a => exact hf a
  | fail e => trivial
  | ask q next ih =>
      refine ⟨hd.1, fun answer => ⟨ih answer (hd.2 answer).1, fun e he => ?_⟩⟩
      change (next answer >>= f) = fail e
      rw [(hd.2 answer).2 e he, fail_bind]

/-- Changing the result of a dialogue keeps it heedful. -/
theorem Heeds.map {d : Dialogue Request Answer ε α} (hd : d.Heeds allowed fatal) (f : α → β) :
    (f <$> d).Heeds allowed fatal := by
  rw [map_eq_pure_bind]
  exact hd.bind fun _ => trivial

/-- Errors may be changed, but not those of fatal answers. -/
theorem Heeds.mapError {d : Dialogue Request Answer ε α} (hd : d.Heeds allowed fatal) {f : ε → ε}
    (keeps : ∀ q answer e, fatal q answer = some e → f e = e) :
    (d.mapError f).Heeds allowed fatal := by
  induction d with
  | done a => trivial
  | fail e => trivial
  | ask q next ih =>
      refine ⟨hd.1, fun answer => ⟨ih answer (hd.2 answer).1, fun e he => ?_⟩⟩
      change (next answer).mapError f = fail e
      rw [(hd.2 answer).2 e he, Dialogue.mapError, keeps q answer e he]

/-- A dialogue that asks nothing. -/
theorem heeds_ofExcept (x : Except ε α) :
    (ofExcept x : Dialogue Request Answer ε α).Heeds allowed fatal := by
  cases x <;> trivial

/-- A dialogue that goes on only with a good result. -/
theorem heeds_ofExcept_bind {x : Except ε α} {f : α → Dialogue Request Answer ε β}
    (hf : ∀ a, x = .ok a → (f a).Heeds allowed fatal) :
    (ofExcept x >>= f).Heeds allowed fatal := by
  cases x with
  | ok a => exact hf a rfl
  | error e => trivial

/-- Asking just once. -/
theorem heeds_request_bind {q : Request} {f : Answer q → Dialogue Request Answer ε β}
    (hq : allowed q) (hf : ∀ answer, (f answer).Heeds allowed fatal)
    (ends : ∀ answer e, fatal q answer = some e → f answer = fail e) :
    (request q >>= f).Heeds allowed fatal :=
  ⟨hq, fun answer => ⟨hf answer, ends answer⟩⟩

/-- Requests of which no answer is fatal. -/
theorem Only.heeds {harmless : Request → Prop} {d : Dialogue Request Answer ε α}
    (hd : d.Only harmless) (hallowed : ∀ q, harmless q → allowed q)
    (hfatal : ∀ q, harmless q → ∀ answer, fatal q answer = none) : d.Heeds allowed fatal := by
  induction d with
  | done a => trivial
  | fail e => trivial
  | ask q next ih =>
      refine ⟨hallowed q hd.1, fun answer => ⟨ih answer (hd.2 answer), fun e he => ?_⟩⟩
      rw [hfatal q hd.1 answer] at he
      simp at he

/-- What a dialogue that heeds asks is allowed. -/
theorem Heeds.only {d : Dialogue Request Answer ε α} (hd : d.Heeds allowed fatal) :
    d.Only allowed := by
  induction d with
  | done a => trivial
  | fail e => trivial
  | ask q next ih => exact ⟨hd.1, fun answer => ih answer (hd.2 answer).1⟩

/-- A dialogue may look at how another one ended, if it fails with every fatal error it sees. -/
theorem Heeds.attempt_bind {d : Dialogue Request Answer ε α}
    {f : Except ε α → Dialogue Request Answer ε β} (hd : d.Heeds allowed fatal)
    (hf : ∀ x, (f x).Heeds allowed fatal)
    (ends : ∀ q answer e, fatal q answer = some e → f (.error e) = fail e) :
    (d.attempt >>= f).Heeds allowed fatal := by
  induction d with
  | done a => exact hf (.ok a)
  | fail e => exact hf (.error e)
  | ask q next ih =>
      refine ⟨hd.1, fun answer => ⟨ih answer (hd.2 answer).1, fun e he => ?_⟩⟩
      change ((next answer).attempt >>= f) = fail e
      rw [(hd.2 answer).2 e he]
      exact ends q answer e he

end Dialogue

/-! ### Fatal answers -/

namespace Error

/-- The error of a failure that must not be wrapped. -/
def fatal? {α : Type} : Except Error α → Option Error
  | .ok _ => none
  | .error e => if e.isFatal then some e else none

/-- What must not be wrapped is a fatal error. -/
theorem fatal?_eq_some_iff {α : Type} {x : Except Error α} {e : Error} :
    fatal? x = some e ↔ x = .error e ∧ e.isFatal = true := by
  cases x with
  | ok a => simp [fatal?]
  | error e' =>
      simp only [fatal?, Option.ite_none_right_eq_some, Option.some.injEq, Except.error.injEq]
      constructor
      · rintro ⟨h, rfl⟩; exact ⟨rfl, h⟩
      · rintro ⟨rfl, h⟩; exact ⟨h, rfl⟩

/-- Updates do not wrap fatal errors. -/
theorem inUpdate_of_isFatal {e : Error} (h : e.isFatal = true) (account : AccountId)
    (phase : UpdatePhase) : inUpdate account phase e = e := if_pos h

/-- Listener calls do not wrap fatal errors. -/
theorem inCallback_of_isFatal {e : Error} (h : e.isFatal = true) (target : Callback) :
    inCallback target e = e := if_pos h

end Error

namespace Call

/-- The calls that name no empty key. -/
def Proper : Call → Prop
  | get key => key ≠ []
  | write w => w.1 ≠ []
  | _ => True

/-- The error of an answer that must reach the outside as it is. -/
def fatal? : (call : Call) → call.Answer → Option Error
  | get _, answer => Error.fatal? (answer.mapError Error.ofStore)
  | write _, answer => Error.fatal? (answer.mapError Error.ofStore)
  | range _, answer => Error.fatal? (answer.mapError Error.ofStore)
  | size, _ | tell _, _ | batch, _ | keep _, _ => none

/-- The calls that a store with a limit counts. -/
def counted : Call → Bool
  | get _ | write _ | range _ => true
  | size | tell _ | batch | keep _ => false

/-- What must reach the outside as it is, is fatal. -/
theorem isFatal_of_fatal? {call : Call} {answer : call.Answer} {e : Error}
    (h : call.fatal? answer = some e) : e.isFatal = true := by
  cases call with
  | get | write | range => exact (Error.fatal?_eq_some_iff.mp h).2
  | size | tell | batch | keep => cases h

end Call

namespace Program

variable {α β : Type}

/-- **The orderly programs** call the store with keys that are not empty, and a fatal refusal ends
them with its own error. -/
def Orderly (p : Program α) : Prop := p.Heeds Call.Proper Call.fatal?

/-- A program that does not call the store is orderly. -/
theorem Orderly.of_only {p : Program α} (hp : p.Only fun call => call.counted = false) :
    p.Orderly :=
  hp.heeds (fun call h => by cases call <;> trivial)
    fun call h answer => by cases call <;> first | rfl | nomatch h

/-- Renaming errors is orderly, if fatal ones keep their names. -/
theorem Orderly.mapError {p : Program α} (hp : p.Orderly) {f : Error → Error}
    (keeps : ∀ e : Error, e.isFatal = true → f e = e) : Orderly (Dialogue.mapError f p) :=
  Dialogue.Heeds.mapError hp fun _ _ e he => keeps e (Call.isFatal_of_fatal? he)

/-- A refusal that is accepted fails with its own error. -/
theorem accepted_of_fatal {answer : Except Store.Fault α} {e : Error}
    (h : Error.fatal? (answer.mapError Error.ofStore) = some e) : accepted answer = .fail e := by
  rw [accepted, (Error.fatal?_eq_some_iff.mp h).1]
  rfl

/-- Looking up a key that is not empty is orderly. -/
theorem orderly_get {key : Key} (h : key ≠ []) : (get key).Orderly :=
  Dialogue.heeds_request_bind h (fun _ => Dialogue.heeds_ofExcept _) fun _ _ => accepted_of_fatal

/-- Writing at a key that is not empty is orderly. -/
theorem orderly_write {key : Key} {value : Option Value} (h : key ≠ []) :
    (write (key, value)).Orderly :=
  Dialogue.heeds_request_bind h (fun _ => Dialogue.heeds_ofExcept _) fun _ _ => accepted_of_fatal

/-- Listing a range is orderly. -/
theorem orderly_range (r : KeyRange) : (range r).Orderly :=
  Dialogue.heeds_request_bind trivial (fun _ => Dialogue.heeds_ofExcept _) fun _ _ =>
    accepted_of_fatal

/-- Counting the keys is never refused. -/
theorem orderly_size : size.Orderly := .of_only ⟨rfl, fun _ => trivial⟩

/-- Telling is no call of the store. -/
theorem orderly_tell (entry : Entry) : (tell entry).Orderly := .of_only ⟨rfl, fun _ => trivial⟩

/-- Looking at the batch is no call of the store. -/
theorem orderly_batch : batch.Orderly := .of_only ⟨rfl, fun _ => trivial⟩

/-- Keeping a batch is no call of the store. -/
theorem orderly_keep (b : Batch) : (keep b).Orderly := .of_only ⟨rfl, fun _ => trivial⟩

/-! ### Slots -/

/-- Reading a record is orderly. -/
theorem orderly_record? (a : AccountId) : (record? a).Orderly := by
  refine Dialogue.Heeds.bind (orderly_get (Slot.key_ne_nil _)) fun found => ?_
  cases found with
  | none => trivial
  | some bytes => exact (Dialogue.heeds_ofExcept _).map _

/-- Reading a record that must be there is orderly. -/
theorem orderly_record (a : AccountId) : (record a).Orderly := by
  refine Dialogue.Heeds.bind (orderly_record? a) fun found => ?_
  cases found <;> trivial

/-- Asking for an account is orderly. -/
theorem orderly_hasRecord (a : AccountId) : (hasRecord a).Orderly :=
  Dialogue.Heeds.map (orderly_get (Slot.key_ne_nil _)) _

/-- Writing a record is orderly. -/
theorem orderly_setRecord (a : AccountId) (r : Record) : (setRecord a r).Orderly :=
  orderly_write (Slot.key_ne_nil _)

/-- Listing all records is orderly. -/
theorem orderly_allRecords : allRecords.Orderly :=
  Dialogue.Heeds.bind (orderly_range _) fun _ => Dialogue.heeds_ofExcept _

/-- Reading the parameters is orderly. -/
theorem orderly_params : params.Orderly := by
  refine Dialogue.Heeds.bind (orderly_get (Slot.key_ne_nil _)) fun found => ?_
  cases found with
  | none => trivial
  | some bytes => exact Dialogue.heeds_ofExcept _

/-- Setting the parameters is orderly. -/
theorem orderly_setParams (p : Params) : (setParams p).Orderly :=
  Dialogue.Heeds.bind (Dialogue.heeds_ofExcept _) fun _ => orderly_write (Slot.key_ne_nil _)

/-- Writing an entry into the queue is orderly. -/
theorem orderly_schedule (t : Timestamp) (a : AccountId) : (schedule t a).Orderly :=
  orderly_write (Slot.key_ne_nil _)

/-- Taking an entry off the queue is orderly. -/
theorem orderly_unschedule (t : Timestamp) (a : AccountId) : (unschedule t a).Orderly :=
  orderly_write (Slot.key_ne_nil _)

end Program

namespace Host

/-- **The hosts none of whose listeners calls the store.** -/
def Aloof (host : Host) : Prop :=
  ∀ entry ∈ host.listeners, ∀ account, (entry.2 account).Only fun call => call.counted = false

/-- Announcing an event to listeners that do not call the store. -/
theorem Aloof.orderly_announce {host : Host} (aloof : host.Aloof) (target : Callback) :
    (host.announce target).Orderly := by
  have hcall : ∀ l : List (Event × Listener), (∀ entry ∈ l, entry ∈ host.listeners) →
      (callAll l target.account).Orderly := by
    intro l hl
    induction l with
    | nil => trivial
    | cons entry rest ih =>
        refine Dialogue.Heeds.bind (Program.Orderly.of_only (aloof entry (hl entry List.mem_cons_self) _))
          fun _ => ih fun e he => hl e (List.mem_cons_of_mem _ he)
  exact (hcall _ fun entry he => (List.mem_filter.mp he).1).mapError fun _ he =>
    Error.inCallback_of_isFatal he target

end Host

end ReferralForest

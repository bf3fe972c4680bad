import ReferralForest.Proofs.Cascade.Buffering
import ReferralForest.Proofs.Forest.History

/-!
# Dispatch

A batch is filled with records and events in any order and with repetitions. At the end of a cascade it is
written and dispatched: every record goes to the store first, and then the listeners are called, one call
after another, up to the first that fails. This module says which calls these are, whatever was added to
the batch and whoever listens.

A registry is seen as a list of subscriptions. What an event makes of them is a list of *deliveries*, the
calls that are due; a dispatch makes the deliveries of all events, as if they were one list.

## Main definitions

* `Addition`, `Batch.gathered`, `Cascade.gather` — a batch, and the cascade that fills it.
* `Callback.Precedes` — the order in which events are announced.
* `Subscription`, `Host.subscribed` — listeners that note their calls and fail as they are told.
* `Delivery`, `Delivery.due`, `Delivered` — the calls that are due, and those that are made.
* `Cascade.Dispatched` — what comes of a batch.

## Main statements

* `Host.announceAll_subscribed` — announcing events is making the deliveries of all of them.
* `World.run_deliver` — the deliveries made are those up to the first failure.
* `Cascade.commit_dispatches` — a batch is written, and its events are announced in order.
-/

namespace ReferralForest

/-! ### Filling a batch -/

/-- What is added to a batch. -/
inductive Addition where
  /-- A record to be written. -/
  | record (account : AccountId) (record : Record)
  /-- An event to be announced. -/
  | event (target : Callback)

namespace Batch

/-- A batch with one more thing in it. -/
def add (batch : Batch) : Addition → Batch
  | .record a r => { batch with records := batch.records.insert a r }
  | .event target => { batch with callbacks := batch.callbacks.insert target () }

/-- The batch that is filled with the given things, in the order given. -/
def gathered (additions : List Addition) : Batch := additions.foldl add .empty

/-- The events of a batch are those that were added to it. -/
theorem get?_callbacks_foldl_add {additions : List Addition} {batch : Batch} {target : Callback} :
    (additions.foldl add batch).callbacks.get? target ≠ none ↔
      .event target ∈ additions ∨ batch.callbacks.get? target ≠ none := by
  classical
  induction additions generalizing batch with
  | nil => simp
  | cons addition rest ih =>
      rw [List.foldl_cons, ih]
      cases addition with
      | record a r => simp [add]
      | event t =>
          simp only [add, SortedMap.get?_insert, List.mem_cons, Addition.event.injEq]
          by_cases h : target = t <;> simp [h]

end Batch

namespace Cascade

/-- The cascade that adds to its batch, in the order given. -/
def gather : List Addition → Cascade Unit
  | [] => pure ()
  | .record a r :: rest => do
    put a r
    gather rest
  | .event target :: rest => do
    announce target.account target.event
    gather rest

/-- Gathering does nothing but fill the batch: each step reads the batch and keeps it with one thing more.
-/
theorem run_buffered_gather (additions : List Addition) (w : World) :
    w.run (gather additions).buffered =
      (.ok (), { w with batch := additions.foldl Batch.add w.batch }) := by
  induction additions generalizing w with
  | nil => rfl
  | cons addition rest ih =>
      have hstep : w.run (gather (addition :: rest)).buffered =
          World.run { w with batch := w.batch.add addition } (gather rest).buffered := by
        cases addition with
        | record a r => rfl
        | event target => rfl
      rw [hstep, ih]
      rfl

end Cascade

/-! ### The records -/

namespace Written

variable {records : SortedMap AccountId Record} {m m' : SortedMap Key Value}

/-- Records are written one by one. -/
theorem foldl (h : Written records m m') (l : List (AccountId × Record)) :
    Written (l.foldl (fun records e => records.insert e.1 e.2) records) m
      (l.foldl (fun m' e => m'.insert (Slot.record e.1).key e.2.encode) m') := by
  induction l generalizing records m' with
  | nil => exact h
  | cons e rest ih => exact ih (h.insert e.1 e.2)

/-- The records of a map are written one by one. -/
theorem of_toList (records : SortedMap AccountId Record) (m : SortedMap Key Value) :
    Written records m
      (records.toList.foldl (fun m' e => m'.insert (Slot.record e.1).key e.2.encode) m) := by
  have hall : records.toList.foldl (fun records e => records.insert e.1 e.2) .empty = records := by
    refine SortedMap.ext_get? fun a => ?_
    rw [SortedMap.get?_foldl_insert, SortedMap.get?_empty, Option.or_none]
  have hwritten := (Written.empty m).foldl records.toList
  rwa [hall] at hwritten

end Written

/-- Writing records one by one, in a store that may have branches. -/
theorem World.run_writeAll_view {w : World} (free : w.store.Unlimited) (l : List (AccountId × Record)) :
    ∃ store, w.run (Cascade.writeAll l) = (.ok (), { w with store }) ∧ store.Unlimited ∧
      store.view = l.foldl (fun m e => m.insert (Slot.record e.1).key e.2.encode) w.store.view := by
  induction l generalizing w with
  | nil => exact ⟨w.store, rfl, free, rfl⟩
  | cons e rest ih =>
      obtain ⟨store₁, hwrite, free₁, hview⟩ :=
        Store.write_view free ((Slot.record e.1).key, some e.2.encode)
      have hset : w.run (Program.setRecord e.1 e.2) = (.ok (), { w with store := store₁ }) := by
        rw [Program.setRecord, Program.set, run_write, hwrite]
        rfl
      obtain ⟨store, hrest, hfree, hrestview⟩ := ih (w := { w with store := store₁ }) free₁
      refine ⟨store, (run_bind_of_ok hset _).trans hrest, hfree, ?_⟩
      rw [hrestview, hview]
      rfl

/-! ### The order of events -/

/-- Keys that stand for themselves are the entries. -/
theorem SortedMap.map_keys_unit {κ : Type} [Ord κ] (m : SortedMap κ Unit) :
    m.keys.map (·, ()) = m.toList := by
  rw [keys, List.map_map]
  exact List.map_id' _

/-- **The order in which events are announced**: by the bytes of the account, and of one account a
changed stake before a new tier. -/
def Callback.Precedes (s t : Callback) : Prop :=
  compare s.account.bytes t.account.bytes = .lt ∨
    s.account = t.account ∧ s.event = .stakeChanged ∧ t.event = .statusUpdated

/-- Callbacks are compared in the order in which they are announced. -/
theorem Callback.precedes_of_compare {s t : Callback} (h : compare s t = .lt) : s.Precedes t := by
  obtain haccount | ⟨haccount, hevent⟩ := Ordering.then_eq_lt.mp h
  · exact .inl haccount
  · refine .inr ⟨Std.LawfulEqOrd.eq_of_compare haccount, ?_⟩
    have hrank : s.event.rank < t.event.rank := Nat.compare_eq_lt.mp hevent
    cases hs : s.event <;> cases ht : t.event <;> simp_all [Event.rank]

/-! ### Listeners -/

/-- A listener in a registry. -/
structure Subscription where
  /-- The event it listens to. -/
  event : Event
  /-- What it fails with when it is called about an account, if it fails. -/
  failure : AccountId → Option Error

/-- The listener of a subscription notes each call and then fails as it is told. -/
def Subscription.listener (s : Subscription) (n : Nat) : Listener := fun account =>
  Listener.recording n s.event none false (s.failure account) account

/-- A host with the given listeners, which know their places in the registry. -/
def Host.subscribed (host : Host) (registry : List Subscription) : Host :=
  { host with listeners := registry.zipIdx.map fun s => (s.1.event, s.1.listener s.2) }

/-- A call of a listener. -/
structure Delivery where
  /-- The place of the listener in the registry. -/
  listener : Nat
  /-- The event it is called about. -/
  target : Callback
  /-- What it fails with, if it fails. -/
  failure : Option Error

namespace Delivery

/-- What a listener notes. -/
def entry (d : Delivery) : Entry := .hearing ⟨d.listener, d.target.event, d.target.account, none⟩

/-- **The calls that an event makes due**, in the order of registration. -/
def due (registry : List Subscription) (target : Callback) : List Delivery :=
  (registry.zipIdx.filter fun s => s.1.event = target.event).map fun s =>
    ⟨s.2, target, s.1.failure target.account⟩

end Delivery

/-- **How the calls that are due are made**: all of them, or those up to the first that fails. A failure
is wrapped with the event it happened at, unless it is fatal. -/
inductive Delivered : (due made : List Delivery) → Except Error Unit → Prop
  /-- No call fails. -/
  | all {due : List Delivery} (succeed : ∀ d ∈ due, d.failure = none) : Delivered due due (.ok ())
  /-- A call fails, and no call before it does. -/
  | upTo {before after : List Delivery} {d : Delivery} {e : Error}
      (succeed : ∀ d ∈ before, d.failure = none) (fails : d.failure = some e) :
      Delivered (before ++ d :: after) (before ++ [d])
        (.error (if e.isFatal then e else .callback d.target.event d.target.account e))

/-- A call that does not fail, and the calls after it. -/
theorem Delivered.cons {d : Delivery} {due made : List Delivery} {result : Except Error Unit}
    (h : Delivered due made result) (succeeds : d.failure = none) :
    Delivered (d :: due) (d :: made) result := by
  cases h with
  | all succeed => exact .all (List.forall_mem_cons.mpr ⟨succeeds, succeed⟩)
  | upTo succeed fails =>
      rw [← List.cons_append, ← List.cons_append]
      exact .upTo (List.forall_mem_cons.mpr ⟨succeeds, succeed⟩) fails

namespace Program

/-- Makes calls one after another, up to the first that fails. -/
def deliver : List Delivery → Program Unit
  | [] => pure ()
  | d :: rest => do
    tell d.entry
    match d.failure with
    | none => deliver rest
    | some e => .fail (e.inCallback d.target)

/-- Calls after calls. -/
theorem deliver_append (l l' : List Delivery) :
    deliver (l ++ l') = deliver l >>= fun _ => deliver l' := by
  induction l with
  | nil => rfl
  | cons d rest ih =>
      rw [List.cons_append, deliver, deliver, bind_assoc]
      cases d.failure with
      | none => exact congrArg _ (funext fun _ => ih)
      | some e => rfl

end Program

namespace Host

/-- Calling the listeners to an event makes the calls that are due. -/
theorem mapError_callAll (target : Callback) {l : List (Subscription × Nat)}
    (listens : ∀ s ∈ l, s.1.event = target.event) :
    (callAll (l.map fun s => (s.1.event, s.1.listener s.2)) target.account).mapError
        (Error.inCallback target) =
      Program.deliver (l.map fun s => ⟨s.2, target, s.1.failure target.account⟩) := by
  induction l with
  | nil => rfl
  | cons s rest ih =>
      obtain ⟨hevent, hrest⟩ := List.forall_mem_cons.mp listens
      obtain ⟨⟨event, failure⟩, n⟩ := s
      obtain rfl : event = target.event := hevent
      have hih := ih hrest
      cases hfailure : failure target.account with
      | none =>
          simp only [List.map_cons, callAll, Subscription.listener, Listener.recording, hfailure,
            Program.deliver, ← hih]
          rfl
      | some e =>
          simp only [List.map_cons, callAll, Subscription.listener, Listener.recording, hfailure,
            Program.deliver]
          rfl

/-- Announcing an event makes the calls that are due. -/
theorem announce_subscribed (host : Host) (registry : List Subscription) (target : Callback) :
    (host.subscribed registry).announce target = Program.deliver (Delivery.due registry target) := by
  have hlisteners : (host.subscribed registry).listeners.filter (·.1 = target.event) =
      (registry.zipIdx.filter fun s => s.1.event = target.event).map
        fun s => (s.1.event, s.1.listener s.2) := by
    rw [subscribed, List.filter_map]
    rfl
  rw [announce, hlisteners, Delivery.due]
  exact mapError_callAll target fun s hs => by simpa using (List.mem_filter.mp hs).2

/-- **Announcing events** makes the calls due for each of them, as one sequence of calls. -/
theorem announceAll_subscribed (host : Host) (registry : List Subscription) (order : List Callback) :
    Cascade.announceAll (host.subscribed registry) (order.map (·, ())) =
      Program.deliver (order.flatMap (Delivery.due registry)) := by
  induction order with
  | nil => rfl
  | cons target rest ih =>
      rw [List.map_cons, Cascade.announceAll, List.flatMap_cons, Program.deliver_append, ih,
        announce_subscribed]

end Host

/-- If no call fails, all are made. -/
theorem Delivered.of_succeed {due made : List Delivery} {result : Except Error Unit}
    (h : Delivered due made result) (succeed : ∀ d ∈ due, d.failure = none) :
    made = due ∧ result = .ok () := by
  cases h with
  | all => exact ⟨rfl, rfl⟩
  | upTo _ fails =>
      have hnone := succeed _ (List.mem_append_right _ List.mem_cons_self)
      exact absurd (fails.symm.trans hnone) (by simp)

/-- The listeners of a registry write nothing. -/
theorem Host.quiet_subscribed (host : Host) (registry : List Subscription) :
    (host.subscribed registry).Quiet := by
  intro entry hentry account
  obtain ⟨s, -, rfl⟩ := List.mem_map.mp hentry
  exact silent_recording s.2 s.1.event none false (s.1.failure account) account

/-- **The calls made** are those up to the first failure. -/
theorem World.run_deliver (w : World) (due : List Delivery) :
    ∃ made result, w.run (Program.deliver due) =
        (result, { w with log := w.log ++ made.map Delivery.entry }) ∧
      Delivered due made result := by
  induction due generalizing w with
  | nil => exact ⟨[], .ok (), by simp [Program.deliver], .all (by simp)⟩
  | cons d rest ih =>
      rw [Program.deliver]
      rw [run_bind_of_ok (w.run_tell d.entry)]
      cases hfailure : d.failure with
      | none =>
          obtain ⟨made, result, hrun, hdelivered⟩ := ih { w with log := w.log ++ [d.entry] }
          refine ⟨d :: made, result, hrun.trans ?_, hdelivered.cons hfailure⟩
          simp
      | some e =>
          have hdelivered : Delivered ([] ++ d :: rest) ([] ++ [d]) _ := .upTo nofun hfailure
          exact ⟨[d], _, rfl, hdelivered⟩

/-! ### Carrying a batch out -/

/-- What is left to do after the records of a batch are written is to announce its events. -/
theorem Cascade.exists_run_commit_gather (additions : List Addition) {w : World}
    (free : w.store.Unlimited) :
    ∃ w₁ : World, w₁.log = w.log ∧
      Written (Batch.gathered additions).records w.store.view w₁.store.view ∧
      ∀ host, w.run ((gather additions).commit host) =
        w₁.run (announceAll host ((Batch.gathered additions).callbacks.keys.map (·, ()))) := by
  let emptied : World := { w with batch := .empty }
  have hfree : emptied.store.Unlimited := free
  obtain ⟨store, hwrite, -, hview⟩ :=
    World.run_writeAll_view hfree (Batch.gathered additions).records.toList
  refine ⟨{ emptied with store }, rfl, hview ▸ .of_toList _ _, fun host => ?_⟩
  let filled : World := { w with batch := .gathered additions }
  have hgather : emptied.run (gather additions).buffered = (.ok (), filled) :=
    run_buffered_gather additions _
  have hkeys := (Batch.gathered additions).callbacks.map_keys_unit
  have hflush : filled.run (flush host) = World.run { emptied with store }
      (announceAll host (Batch.gathered additions).callbacks.toList) := by
    rw [flush, World.run_bind_of_ok filled.run_batch, World.run_bind_of_ok (filled.run_keep .empty)]
    exact World.run_bind_of_ok hwrite _
  rw [commit, World.run_bind_of_ok (w.run_keep .empty), World.run_bind_of_ok hgather, hkeys, ← hflush]
  exact congrArg filled.run (bind_pure (flush host))

/-- **What comes of a batch** that is filled as given and carried out in a world: the order in which its
events are announced, the world before the first call, the calls made, the result, and the world after the
last call. -/
structure Cascade.Dispatched (host : Host) (registry : List Subscription) (additions : List Addition)
    (w : World) (order : List Callback) (w₁ : World) (made : List Delivery)
    (result : Except Error Unit) (w' : World) : Prop where
  /-- Each event that was added is announced once, -/
  once : ∀ target, target ∈ order ↔ .event target ∈ additions
  /-- and in order. -/
  ascending : order.Pairwise Callback.Precedes
  /-- Before the first call the records are in the store, -/
  written : Written (Batch.gathered additions).records w.store.view w₁.store.view
  /-- nothing is told, -/
  untold : w₁.log = w.log
  /-- and nothing is left to do but to announce the events, whoever listens. -/
  first : ∀ anyone : Host, w.run ((gather additions).commit anyone) =
    w₁.run (announceAll anyone (order.map (·, ())))
  /-- The outcome, -/
  run : w.run ((gather additions).commit (host.subscribed registry)) = (result, w')
  /-- which is that of the calls, event by event and in the order of registration, up to a failure; -/
  delivered : Delivered (order.flatMap (Delivery.due registry)) made result
  /-- these calls and no others are heard; -/
  heard : w'.log = w.log ++ made.map Delivery.entry
  /-- and the records stay written. -/
  kept : w'.store = w₁.store

/-- **Dispatch.** Whatever is added to a batch, in whatever order, its records are all written before
anyone is called, and stay written. Then the listeners are called about each event once, in order and up
to the first call that fails. -/
theorem Cascade.commit_dispatches (host : Host) (registry : List Subscription)
    (additions : List Addition) {w : World} (free : w.store.Unlimited) :
    ∃ order w₁ made result w',
      Dispatched host registry additions w order w₁ made result w' := by
  obtain ⟨w₁, hlog, hwritten, hrun⟩ := exists_run_commit_gather additions free
  obtain ⟨made, result, hdeliver, hdelivered⟩ :=
    w₁.run_deliver ((Batch.gathered additions).callbacks.keys.flatMap (Delivery.due registry))
  refine ⟨(Batch.gathered additions).callbacks.keys, w₁, made, result,
    { w₁ with log := w₁.log ++ made.map Delivery.entry }, ?_⟩
  constructor
  case once =>
    intro target
    rw [SortedMap.mem_keys_iff, Batch.gathered, Batch.get?_callbacks_foldl_add]
    simp [Batch.empty]
  case ascending =>
    rw [SortedMap.keys, List.pairwise_map]
    exact (Batch.gathered additions).callbacks.sorted.imp Callback.precedes_of_compare
  case written => exact hwritten
  case untold => exact hlog
  case first => exact hrun
  case run => rw [hrun, Host.announceAll_subscribed, hdeliver]
  case delivered => exact hdelivered
  case heard => rw [hlog]
  case kept => rfl

namespace SmallDispatch

open SmallHistory (leaf)

/-- Of two listeners to new tiers the first fails, for every account. -/
def registry : List Subscription :=
  [⟨.statusUpdated, fun _ => some (.bank "shut")⟩, ⟨.stakeChanged, fun _ => none⟩,
    ⟨.statusUpdated, fun _ => none⟩]

/-- An event that is added twice, with another and a record between. -/
def additions : List Addition :=
  [.event ⟨leaf, .statusUpdated⟩, .event ⟨leaf, .stakeChanged⟩,
    .record leaf (.fresh none .new), .event ⟨leaf, .statusUpdated⟩]

end SmallDispatch

/-- A small batch is dispatched, to listeners of which one fails: of the three calls that are due the first
two are made, and the third comes after the failure. -/
theorem Cascade.commit_dispatches_small :
    (World.ofStore .empty).store.Unlimited ∧
    (∃ order w₁ made result w', Dispatched Host.standalone SmallDispatch.registry
      SmallDispatch.additions (World.ofStore .empty) order w₁ made result w') ∧
    let run := (World.ofStore .empty).run ((Cascade.gather SmallDispatch.additions).commit
      (Host.standalone.subscribed SmallDispatch.registry))
    run.1 = .error (.callback .statusUpdated SmallHistory.leaf (.bank "shut")) ∧
      run.2.hearings = [⟨1, .stakeChanged, SmallHistory.leaf, none⟩,
        ⟨0, .statusUpdated, SmallHistory.leaf, none⟩] :=
  ⟨rfl, commit_dispatches Host.standalone SmallDispatch.registry SmallDispatch.additions rfl,
    by decide +kernel⟩

end ReferralForest

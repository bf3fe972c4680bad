import ReferralForest.Proofs.Cascade.Buffering
import ReferralForest.Proofs.Cascade.Resting
import ReferralForest.Proofs.Program.Admitted

/-!
# What a Status Check Writes

A status check writes to the queue at once, while the record it ends with is still to be put. Nothing of
the store makes a difference to it but the parameters. So wherever it succeeds, in the middle of a cascade
and on whatever store, it ends with the record and makes the writes that it ends with and makes on a plain
store with these parameters, by itself.

## Main definitions

* `Record.rescheduling` — the write to the queue that goes with a new record.
* `Cascade.Writes` — a cascade ends and writes in one way, wherever the parameters are as found.

## Main statements

* `Cascade.writes_check` — a status check that succeeds writes to the queue, and only if the schedule of
  its record changes.
-/

namespace ReferralForest

/-- **The write to the queue that goes with a new record** of an account: an entry is deleted if the record
is no longer scheduled, and added if it is newly scheduled. -/
def Record.rescheduling (a : AccountId) (r r' : Record) : List Store.Write :=
  match r.downgradeAt, r'.downgradeAt with
  | some t, none => [((Slot.downgrade t a).key, none)]
  | none, some t => [((Slot.downgrade t a).key, some marker)]
  | _, _ => []

namespace Record

variable {a : AccountId} {r r' : Record} {e : Store.Write}

/-- It concerns a queue entry of the account. -/
theorem exists_of_mem_rescheduling (h : e ∈ r.rescheduling a r') :
    ∃ t, e.1 = (Slot.downgrade t a).key := by
  rw [rescheduling] at h
  split at h
  next t _ _ => exact ⟨t, congrArg Prod.fst (List.mem_singleton.mp h)⟩
  next t _ _ => exact ⟨t, congrArg Prod.fst (List.mem_singleton.mp h)⟩
  next => exact absurd h List.not_mem_nil

/-- There is none if the schedule stays. -/
theorem rescheduling_of_eq (h : r'.downgradeAt = r.downgradeAt) : r.rescheduling a r' = [] := by
  rw [rescheduling, h]
  cases r.downgradeAt <;> rfl

end Record

/-! ### Several writes -/

namespace Store

variable {writes : List Write} {m m' : SortedMap Key Value} {k : Key}

/-- What is not written is as it was. -/
theorem get?_foldl_put_of_ne (h : ∀ e ∈ writes, k ≠ e.1) : (writes.foldl put m).get? k = m.get? k := by
  induction writes generalizing m with
  | nil => rfl
  | cons e rest ih =>
      obtain ⟨hfirst, hrest⟩ := List.forall_mem_cons.mp h
      rw [List.foldl_cons, ih hrest, get?_put, if_neg hfirst]

/-- What a key gets does not depend on what is stored elsewhere. -/
theorem get?_foldl_put_congr (writes : List Write) (h : m.get? k = m'.get? k) :
    (writes.foldl put m).get? k = (writes.foldl put m').get? k := by
  induction writes generalizing m m' with
  | nil => exact h
  | cons e rest ih =>
      refine ih ?_
      rw [get?_put, get?_put, h]

end Store

/-- Only queue entries of the account are rescheduled. -/
theorem Record.get?_foldl_rescheduling {a : AccountId} {r r' : Record} {slot : Slot}
    (h : ∀ t, slot ≠ .downgrade t a) (m : SortedMap Key Value) :
    ((r.rescheduling a r').foldl Store.put m).get? slot.key = m.get? slot.key := by
  refine Store.get?_foldl_put_of_ne fun e he heq => ?_
  obtain ⟨t, ht⟩ := exists_of_mem_rescheduling he
  exact h t (Slot.key_injective (heq.trans ht))

namespace Cascade

variable {α β : Type} {a : AccountId} {r r' : Record} {now t : Timestamp} {w w' : World}
  {m : SortedMap Key Value} {found : Option Value}

/-! ### Steps as programs -/

/-- A step whose answer is handed on runs as the program it stands for. -/
theorem run_attempt_handed (w : World) (p : Program α) :
    w.run (p.attempt >>= fun answer : Except Error α => buffered (.ofExcept answer)) = w.run p := by
  rw [World.run_bind_of_ok (World.run_attempt w p)]
  cases hrun : w.run p with
  | mk answer w' => cases answer <;> rfl

/-- Reading the parameters runs as outside of cascades. -/
theorem run_buffered_params (w : World) : w.run params.buffered = w.run Program.params :=
  run_attempt_handed w _

/-- An entry goes into the queue at once. -/
theorem run_buffered_enqueue (w : World) (t : Timestamp) (a : AccountId) :
    w.run (enqueue t a).buffered = w.run (Program.schedule t a) :=
  run_attempt_handed w _

/-- An entry comes off the queue at once. -/
theorem run_buffered_dequeue (w : World) (t : Timestamp) (a : AccountId) :
    w.run (dequeue t a).buffered = w.run (Program.unschedule t a) :=
  run_attempt_handed w _

/-- A record that is not in the batch is loaded from the store. -/
theorem run_buffered_load_of_get?_eq_none (h : w.batch.records.get? a = none) :
    w.run (load a).buffered = w.run (Program.record? a) := by
  have hserve : w.run (Step.load a).serve = w.run (Program.record? a).attempt := by
    rw [Step.serve, World.run_bind_of_ok w.run_batch]
    simp only [h]
    rfl
  exact (World.run_bind_congr hserve _).trans (run_attempt_handed w _)

/-- **A record that is loaded** from the store is the one that is stored there. -/
theorem run_load_eq_ok {bytes : Value} {loaded : Option Record}
    (fresh : w.batch.records.get? a = none)
    (stored : w.store.view.get? (Slot.record a).key = some bytes) (decoded : Record.decode bytes = .ok r)
    (ran : w.run (load a).buffered = (.ok loaded, w')) :
    loaded = some r ∧ w'.batch = w.batch ∧ w'.store.view = w.store.view := by
  rw [run_buffered_load_of_get?_eq_none fresh] at ran
  obtain ⟨found, w₁, hget, hrest⟩ := World.run_bind_eq_ok_iff.mp ran
  obtain ⟨rfl, hbatch, hview⟩ := World.run_get_eq_ok hget
  rw [stored] at hrest
  simp only [decoded] at hrest
  obtain ⟨hloaded, rfl⟩ := Prod.mk.inj hrest
  exact ⟨(Except.ok.inj hloaded).symm, hbatch, hview⟩

/-! ### Cascades that write in one way -/

/-- **A cascade ends and writes in one way** wherever the parameters are as found: it ends with `x`, the
batch has the records it had, and `writes` have been made, none of them to the parameters. On a store that
admits every call it does end. -/
structure Writes (found : Option Value) (c : Cascade α) (x : α) (writes : List Store.Write) : Prop where
  /-- The parameters are not written. -/
  aside : ∀ e ∈ writes, Slot.params.key ≠ e.1
  /-- What it has done if it succeeds. -/
  admitted : ∀ {w w' : World} {y : α}, w.store.view.get? Slot.params.key = found →
    w.run c.buffered = (.ok y, w') →
      y = x ∧ w'.batch.records = w.batch.records ∧ w'.store.view = writes.foldl Store.put w.store.view
  /-- On a plain store it succeeds. -/
  free : ∀ {w : World} {m : SortedMap Key Value}, w.store = .ofEntries m →
    m.get? Slot.params.key = found →
      ∃ w', w.run c.buffered = (.ok x, w') ∧ w'.store = .ofEntries (writes.foldl Store.put m)

/-- A cascade that never fails and leaves the records of the batch and the store writes nothing. -/
theorem writes_of_leaves {c : Cascade α} {x : α} (leaves : ∀ w : World, ∃ w', w.run c.buffered = (.ok x, w') ∧
    w'.batch.records = w.batch.records ∧ w'.store = w.store) : Writes found c x [] where
  aside := nofun
  admitted {w w' y} _ ran := by
    obtain ⟨w₁, hrun, hrecords, hstore⟩ := leaves w
    rw [hrun] at ran
    obtain ⟨hx, rfl⟩ := Prod.mk.inj ran
    exact ⟨(Except.ok.inj hx).symm, hrecords, congrArg Store.view hstore⟩
  free {w m} hstore _ := by
    obtain ⟨w₁, hrun, -, hsame⟩ := leaves w
    exact ⟨w₁, hrun, hsame.trans hstore⟩

/-- A cascade that is done writes nothing. -/
theorem writes_pure (x : α) : Writes found (pure x) x [] :=
  writes_of_leaves fun w => ⟨w, rfl, rfl, rfl⟩

/-- Telling a notice writes nothing. -/
theorem writes_tell (notice : Notice) : Writes found (tell notice) () [] :=
  writes_of_leaves fun _ => ⟨_, rfl, rfl, rfl⟩

/-- Announcing an event writes nothing. -/
theorem writes_announce (a : AccountId) (event : Event) : Writes found (announce a event) () [] :=
  writes_of_leaves fun _ => ⟨_, rfl, rfl, rfl⟩

/-- One cascade after another. The second one finds the parameters that the first one found. -/
theorem Writes.bind {c : Cascade α} {f : α → Cascade β} {x : α} {y : β} {ws vs : List Store.Write}
    (hc : c.Writes found x ws) (hf : (f x).Writes found y vs) : Writes found (c >>= f) y (ws ++ vs) where
  aside e he := (List.mem_append.mp he).elim (hc.aside e) (hf.aside e)
  admitted hfound ran := by
    rw [buffered_bind] at ran
    obtain ⟨x', w₁, hrun, hrest⟩ := World.run_bind_eq_ok_iff.mp ran
    obtain ⟨rfl, hrecords, hview⟩ := hc.admitted hfound hrun
    have hfound' : w₁.store.view.get? Slot.params.key = found := by
      rw [hview, Store.get?_foldl_put_of_ne hc.aside, hfound]
    obtain ⟨rfl, hrecords', hview'⟩ := hf.admitted hfound' hrest
    exact ⟨rfl, hrecords'.trans hrecords, by rw [hview', hview, List.foldl_append]⟩
  free {w m} hstore hfound := by
    obtain ⟨w₁, hrun, hstore₁⟩ := hc.free hstore hfound
    have hfound' : (ws.foldl Store.put m).get? Slot.params.key = found := by
      rw [Store.get?_foldl_put_of_ne hc.aside, hfound]
    obtain ⟨w₂, hrest, hstore₂⟩ := hf.free hstore₁ hfound'
    refine ⟨w₂, ?_, by rw [hstore₂, List.foldl_append]⟩
    rw [buffered_bind, World.run_bind_of_ok hrun, hrest]

/-- A cascade that runs as a write makes this write. -/
theorem writes_of_run_eq {c : Cascade Unit} {e : Store.Write} (hkey : Slot.params.key ≠ e.1)
    (hrun : ∀ w : World, w.run c.buffered = w.run (Program.write e)) : c.Writes found () [e] where
  aside e' he' := List.mem_singleton.mp he' ▸ hkey
  admitted _ ran := by
    rw [hrun] at ran
    obtain ⟨hbatch, hview⟩ := World.run_write_eq_ok ran
    exact ⟨rfl, congrArg Batch.records hbatch, hview⟩
  free {w m} hstore _ := ⟨_, (hrun w).trans (World.run_write_ofEntries hstore e), rfl⟩

/-- The key of the parameters is no queue entry's. -/
theorem params_key_ne_downgrade : Slot.params.key ≠ (Slot.downgrade t a).key := fun h =>
  nomatch Slot.key_injective h

/-- Writing an entry into the queue is one write. -/
theorem writes_enqueue (t : Timestamp) (a : AccountId) :
    Writes found (enqueue t a) () [((Slot.downgrade t a).key, some marker)] :=
  writes_of_run_eq params_key_ne_downgrade fun w => run_buffered_enqueue w t a

/-- Taking an entry off the queue is one write. -/
theorem writes_dequeue (t : Timestamp) (a : AccountId) :
    Writes found (dequeue t a) () [((Slot.downgrade t a).key, none)] :=
  writes_of_run_eq params_key_ne_downgrade fun w => run_buffered_dequeue w t a

/-- The parameters that stored bytes stand for; the default ones if there are none. -/
def readParams : Option Value → Except Error Params
  | some bytes => Params.decode bytes
  | none => .ok .default

/-- What a program reads for the parameters. -/
theorem run_params_eq_ok {p : Params} (ran : w.run Program.params = (.ok p, w')) :
    readParams (w.store.view.get? Slot.params.key) = .ok p ∧ w'.batch = w.batch ∧
      w'.store.view = w.store.view := by
  obtain ⟨found, w₁, hget, hrest⟩ := World.run_bind_eq_ok_iff.mp ran
  obtain ⟨hfound, hbatch, hview⟩ := World.run_get_eq_ok hget
  have hread : w₁.run (.ofExcept (readParams found)) = (.ok p, w') := by
    cases found <;> exact hrest
  rw [World.run_ofExcept] at hread
  obtain ⟨hp, rfl⟩ := Prod.mk.inj hread
  exact ⟨hfound ▸ hp, hbatch, hview⟩

/-- The parameters are read. -/
theorem writes_params {p : Params} (hp : readParams found = .ok p) : Writes found params p [] where
  aside := nofun
  admitted hfound ran := by
    rw [run_buffered_params] at ran
    obtain ⟨hread, hbatch, hview⟩ := run_params_eq_ok ran
    rw [hfound, hp] at hread
    exact ⟨(Except.ok.inj hread).symm, congrArg Batch.records hbatch, hview⟩
  free {w m} hstore hfound := by
    refine ⟨w, ?_, hstore⟩
    rw [run_buffered_params, Program.params, World.run_bind_of_ok (World.run_get_ofEntries hstore _),
      hfound]
    cases found with
    | none => exact congrArg (·, w) hp
    | some bytes => exact (World.run_ofExcept w _).trans (congrArg (·, w) hp)

/-! ### Status checks -/

/-- Cancelling the loss of a tier takes its entry off the queue, if there is one. -/
theorem writes_cancelDowngrade (a : AccountId) (r : Record) :
    Writes found (cancelDowngrade a r) { r with downgradeAt := none }
      (r.rescheduling a { r with downgradeAt := none }) := by
  cases hr : r.downgradeAt with
  | none =>
      have hsame : { r with downgradeAt := none } = r := by rw [← hr]
      rw [cancelDowngrade, hsame, hr, Record.rescheduling_of_eq rfl]
      exact writes_pure r
  | some t =>
      rw [cancelDowngrade, Record.rescheduling, hr]
      exact (writes_dequeue t a).bind ((writes_tell _).bind (writes_pure _))

/-- Climbing writes nothing. -/
theorem writes_promote (a : AccountId) (r : Record) :
    Writes found (promote a r) { r with status := climb r r.status } [] := by
  rw [promote]
  split
  next => exact (writes_tell _).bind ((writes_announce a _).bind (writes_pure _))
  next hnot =>
      rw [(climb_eq_or_lt r r.status).resolve_right hnot]
      exact writes_pure r

/-- A record that meets its tier's requirement leaves the queue and climbs. -/
theorem writes_refresh_of_met (met : r.status.metBy r = true) :
    let unscheduled := { r with downgradeAt := none }
    let climbed := { unscheduled with status := climb unscheduled r.status }
    Writes found (refresh now a r) climbed (r.rescheduling a climbed) := by
  intro unscheduled climbed
  have hsame : r.rescheduling a climbed = r.rescheduling a unscheduled ++ [] :=
    (List.append_nil _).symm
  rw [refresh, if_pos met, hsame]
  exact (writes_cancelDowngrade a r).bind (writes_promote a unscheduled)

/-- A record that fails its tier's requirement is scheduled once the time of the notice can be told. -/
theorem writes_scheduleDowngrade {p : Params} (unscheduled : r.downgradeAt = none)
    (hread : readParams found = .ok p) (later : now.add? p.gracePeriod = some t) :
    Writes found (scheduleDowngrade now a r) { r with downgradeAt := some t }
      (r.rescheduling a { r with downgradeAt := some t }) := by
  have hchecked : Writes found (checked "downgrade time" (now.add? p.gracePeriod)) t [] := by
    rw [later]
    exact writes_pure t
  rw [scheduleDowngrade, Record.rescheduling, unscheduled]
  exact (writes_params hread).bind
    (hchecked.bind ((writes_enqueue t a).bind ((writes_tell _).bind (writes_pure _))))

/-- It can be told if the record has been scheduled. -/
theorem exists_later_of_run (unscheduled : r.downgradeAt = none)
    (ran : w.run (scheduleDowngrade now a r).buffered = (.ok r', w')) :
    ∃ p t, readParams (w.store.view.get? Slot.params.key) = .ok p ∧
      now.add? p.gracePeriod = some t := by
  rw [scheduleDowngrade, unscheduled] at ran
  dsimp only at ran
  rw [buffered_bind] at ran
  obtain ⟨p, w₁, hparams, ran⟩ := World.run_bind_eq_ok_iff.mp ran
  rw [run_buffered_params] at hparams
  refine ⟨p, ?_⟩
  cases hlater : now.add? p.gracePeriod with
  | none =>
      rw [hlater] at ran
      cases congrArg Prod.fst ran
  | some t => exact ⟨t, (run_params_eq_ok hparams).1, rfl⟩

/-- A status check that succeeds ends and writes in one way. -/
theorem writes_refresh (ran : w.run (refresh now a r).buffered = (.ok r', w')) :
    Writes (w.store.view.get? Slot.params.key) (refresh now a r) r' (r.rescheduling a r') := by
  suffices h : ∃ x, Writes (w.store.view.get? Slot.params.key) (refresh now a r) x (r.rescheduling a x) by
    obtain ⟨x, hx⟩ := h
    obtain ⟨rfl, -, -⟩ := hx.admitted rfl ran
    exact hx
  by_cases met : r.status.metBy r = true
  · exact ⟨_, writes_refresh_of_met met⟩
  · rw [refresh, if_neg met] at ran ⊢
    cases hr : r.downgradeAt with
    | some t =>
        rw [scheduleDowngrade, hr]
        refine ⟨r, ?_⟩
        rw [Record.rescheduling_of_eq rfl]
        exact writes_pure r
    | none =>
        obtain ⟨p, t, hread, hlater⟩ := exists_later_of_run hr ran
        exact ⟨_, writes_scheduleDowngrade hr hread hlater⟩

/-- **A status check that succeeds**, if one is made at all, ends and writes in one way: it makes the write
to the queue that goes with the new record. -/
theorem writes_check {checkAt : Option Timestamp}
    (ran : w.run (check checkAt a r).buffered = (.ok r', w')) :
    Writes (w.store.view.get? Slot.params.key) (check checkAt a r) r' (r.rescheduling a r') := by
  cases checkAt with
  | some now => exact writes_refresh ran
  | none =>
      obtain rfl := Except.ok.inj (Prod.mk.inj ran).1
      rw [Record.rescheduling_of_eq rfl]
      exact writes_pure r

end Cascade

end ReferralForest

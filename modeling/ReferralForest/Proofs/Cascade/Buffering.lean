import ReferralForest.Proofs.Cascade.Courses
import ReferralForest.Proofs.Store.Keys

/-!
# Buffering

A cascade buffers the records it puts and writes them when it ends, while queue and relation entries go
to the store at once and parameters are read from it. This module compares that with a cascade that is
*written through*: each record it puts is encoded and written at once, and each record it loads is read
from the store and decoded. A blind cascade cannot tell the difference, and what it leaves is the same.

The store of the buffered cascade *lags behind* the other one by the buffered records, and by nothing
else: no queue entry, relation or parameter lies where a record lies.

## Main definitions

* `Cascade.Step.serveThrough`, `Cascade.commitThrough` — cascades, written through.
* `World.Lags` — the buffered world and the one written through, in the course of a cascade.
* `World.Lags.ServedAlike` — a step that has one answer in both.

## Main statements

* `World.Lags.run_serve` — one step, both ways.
* `World.Lags.run_buffered` — a blind cascade, both ways.
* `Cascade.Course.commit_transparent` — carrying a course out, both ways.
-/

namespace ReferralForest

namespace Cascade

variable {α : Type}

/-- Serves a step without a buffer for records. -/
def Step.serveThrough : (step : Step) → Program step.Answer
  | .load account => (Program.record? account).attempt
  | .put account r => Program.setRecord account r
  | .announce callback => (Step.announce callback).serve
  | .tell notice => (Step.tell notice).serve
  | .params => Step.params.serve
  | .enqueue time account => (Step.enqueue time account).serve
  | .dequeue time account => (Step.dequeue time account).serve
  | .relate parent child => (Step.relate parent child).serve

/-- A cascade that writes records at once, and only keeps the events for its end. -/
def writtenThrough (c : Cascade α) : Program α := c.through Step.serveThrough

/-- Carries a cascade out, written through. -/
def commitThrough (host : Host) (c : Cascade α) : Program α := do
  Program.keep .empty
  let result ← c.writtenThrough
  flush host
  return result

end Cascade

/-! ### Records over a map -/

/-- A map with records written over another one: each record lies at its slot, and all else is as in the
other map. -/
structure Written (records : SortedMap AccountId Record) (m m' : SortedMap Key Value) : Prop where
  /-- Each record lies at its slot. -/
  record : ∀ a r, records.get? a = some r → m'.get? (Slot.record a).key = some r.encode
  /-- All else is as it was. -/
  other : ∀ k, (∀ a r, records.get? a = some r → k ≠ (Slot.record a).key) → m'.get? k = m.get? k

namespace Written

variable {records : SortedMap AccountId Record} {m m' : SortedMap Key Value}

/-- Without records a map is written over itself. -/
theorem empty (m : SortedMap Key Value) : Written .empty m m where
  record _ _ h := by simp at h
  other _ _ := rfl

/-- What is written over a map is determined. -/
theorem unique {m'' : SortedMap Key Value} (h : Written records m m') (h' : Written records m m'') :
    m' = m'' := by
  refine SortedMap.ext_get? fun k => ?_
  by_cases hk : ∃ a r, records.get? a = some r ∧ k = (Slot.record a).key
  · obtain ⟨a, r, hr, rfl⟩ := hk
    rw [h.record a r hr, h'.record a r hr]
  · have hother : ∀ a r, records.get? a = some r → k ≠ (Slot.record a).key :=
      fun a r hr heq => hk ⟨a, r, hr, heq⟩
    rw [h.other k hother, h'.other k hother]

/-- A key that is no record's. -/
theorem get?_of_ne (h : Written records m m') {k : Key} (hk : ∀ a, k ≠ (Slot.record a).key) :
    m'.get? k = m.get? k :=
  h.other k fun a _ _ => hk a

/-- One more record is written. -/
theorem insert (h : Written records m m') (a : AccountId) (r : Record) :
    Written (records.insert a r) m (m'.insert (Slot.record a).key r.encode) where
  record b r' hr := by
    rw [SortedMap.get?_insert] at hr
    split at hr
    next heq =>
        obtain rfl := Option.some.inj hr
        rw [heq, SortedMap.get?_insert_self]
    next hne =>
        have hkey : (Slot.record b).key ≠ (Slot.record a).key := fun heq =>
          hne (Slot.record.inj (Slot.key_injective heq))
        rw [SortedMap.get?_insert_of_ne _ _ hkey]
        exact h.record b r' hr
  other k hk := by
    have hkey : k ≠ (Slot.record a).key := hk a r (records.get?_insert_self a r)
    rw [SortedMap.get?_insert_of_ne _ _ hkey]
    refine h.other k fun b r' hr => ?_
    by_cases heq : b = a
    · rwa [heq]
    · exact hk b r' ((records.get?_insert_of_ne r heq).trans hr)

/-- Anything else is written on both sides. -/
theorem put (h : Written records m m') {w : Store.Write} (hw : ∀ a, w.1 ≠ (Slot.record a).key) :
    Written records (Store.put m w) (Store.put m' w) where
  record a r hr := by
    rw [Store.get?_put, if_neg fun heq => hw a heq.symm]
    exact h.record a r hr
  other k hk := by
    rw [Store.get?_put, Store.get?_put, h.other k hk]

end Written

namespace World

variable {α : Type} {w w' : World} {m : SortedMap Key Value}

/-! ### Runs in memory -/

/-- A plain store finds what its map has at a key. -/
theorem run_get_ofEntries (h : w.store = .ofEntries m) (key : Key) :
    w.run (Program.get key) = (.ok (m.get? key), w) := by
  obtain ⟨store, batch, log⟩ := w
  obtain rfl := h
  exact run_get _ key

/-- A plain store takes every write. -/
theorem run_write_ofEntries (h : w.store = .ofEntries m) (write : Store.Write) :
    w.run (Program.write write) =
      (.ok (), { w with store := .ofEntries (Store.put m write) }) := by
  obtain ⟨store, batch, log⟩ := w
  obtain rfl := h
  exact run_write _ write

/-- A record is read and decoded. -/
theorem run_record?_view (free : w.store.Unlimited) (a : AccountId) :
    w.run (Program.record? a) =
      (match w.store.view.get? (Slot.record a).key with
        | some bytes => (Record.decode bytes).map some
        | none => .ok none, w) := by
  have hget : w.run (Program.get (Slot.record a).key) =
      (.ok (w.store.view.get? (Slot.record a).key), w) := by
    rw [run_get, Store.get_eq_view free]
    rfl
  rw [Program.record?, run_bind_of_ok hget]
  cases w.store.view.get? (Slot.record a).key with
  | none => rfl
  | some bytes =>
      dsimp only
      cases Record.decode bytes <;> rfl

/-- A plain store reads and decodes what its map has for an account. -/
theorem run_record?_ofEntries (h : w.store = .ofEntries m) (a : AccountId) :
    w.run (Program.record? a) =
      (match m.get? (Slot.record a).key with
        | some bytes => (Record.decode bytes).map some
        | none => .ok none, w) := by
  obtain ⟨store, batch, log⟩ := w
  obtain rfl := h
  exact run_record?_view (w := ⟨.ofEntries m, batch, log⟩) rfl a

/-- The parameters depend on what is stored for them, and on nothing else. -/
theorem exists_run_params (found : Option Value) :
    ∃ x, ∀ w : World, w.run (Program.get Slot.params.key) = (.ok found, w) →
      w.run Program.params = (x, w) := by
  cases found with
  | none => exact ⟨_, fun w h => run_bind_of_ok h _⟩
  | some bytes => exact ⟨_, fun w h => (run_bind_of_ok h _).trans (run_ofExcept w _)⟩

/-! ### A store that lags behind -/

/-- A world in the course of a buffered cascade lags behind one in which it is written through: it lacks
the records that are buffered, and nothing else. -/
structure Lags (w w' : World) : Prop where
  /-- The store of the buffered cascade. -/
  store : w.store = .ofEntries w.store.base.entries
  /-- The store of the one written through. -/
  store' : w'.store = .ofEntries w'.store.base.entries
  /-- The records between them are those buffered. -/
  written : Written w.batch.records w.store.base.entries w'.store.base.entries
  /-- They can be stored. -/
  fits : ∀ a r, w.batch.records.get? a = some r → r.Fits
  /-- Without a buffer there is none. -/
  records : w'.batch.records = .empty
  /-- The events wait on both sides. -/
  callbacks : w'.batch.callbacks = w.batch.callbacks
  /-- The lines told are the same. -/
  log : w'.log = w.log

namespace Lags

open Cascade

/-- Looking a slot up that is no record's. -/
theorem run_get (h : Lags w w') (slot : Slot) (hslot : ∀ a, slot ≠ .record a) :
    ∃ found, w.run (Program.get slot.key) = (.ok found, w) ∧
      w'.run (Program.get slot.key) = (.ok found, w') := by
  refine ⟨_, run_get_ofEntries h.store slot.key, ?_⟩
  rw [run_get_ofEntries h.store' slot.key,
    h.written.get?_of_ne fun a heq => hslot a (Slot.key_injective heq)]

/-- **A step is served alike** in both worlds: the answers are the same, and one world still lags behind the
other. -/
def ServedAlike (w w' : World) (step : Step) : Prop :=
  ∃ x v v', w.run step.serve = (.ok x, v) ∧ w'.run step.serveThrough = (.ok x, v') ∧
    Lags v v' ∧ step.Gives x

/-- What follows a step that is served alike is the same. -/
theorem ServedAlike.followed {step : Step} (h : ServedAlike w w' step) (next : step.Answer → Cascade α) :
    ∃ x x' v v', w.run step.serve = (.ok x, v) ∧ w'.run step.serveThrough = (.ok x', v') ∧
      Lags v v' ∧ step.Gives x ∧ next x = next x' := by
  obtain ⟨x, v, v', hserve, hthrough, hlags, given⟩ := h
  exact ⟨x, x, v, v', hserve, hthrough, hlags, given, rfl⟩

/-- **A record that is buffered** is the answer as it was put. Written through, the padded one is read back. -/
theorem run_serve_load (h : Lags w w') {a : AccountId} {r : Record}
    (buffered : w.batch.records.get? a = some r) :
    w.run (Step.load a).serve = (.ok (.ok (some r)), w) ∧
      w'.run (Step.load a).serveThrough = (.ok (.ok (some r.normalize)), w') := by
  have hthrough := run_attempt w' (Program.record? a)
  have hread := Record.decode_encode_normalize (h.fits a r buffered)
  simp only [run_record?_ofEntries h.store', h.written.record a r buffered, hread] at hthrough
  refine ⟨?_, hthrough⟩
  rw [Step.serve, run_bind_of_ok w.run_batch]
  simp only [buffered]
  rfl

/-- An answer with a record that was stored is an answer the step may give. -/
theorem gives_load {a : AccountId} {found : Option Value} {answer : Except Error (Option Record)}
    (h : answer = match found with
      | some bytes => (Record.decode bytes).map some
      | none => .ok none) : (Step.load a).Gives answer := by
  rintro r rfl
  cases found with
  | none => cases h
  | some bytes =>
      cases hdecode : Record.decode bytes with
      | error e => simp [hdecode, Except.map] at h
      | ok r' =>
          simp only [hdecode] at h
          obtain rfl := Option.some.inj (Except.ok.inj h)
          exact Record.fits_of_decode hdecode

/-- **A record that nobody has put** is read from its slot, which is as it was before the cascade. -/
theorem servedAlike_load (h : Lags w w') {a : AccountId} (absent : w.batch.records.get? a = none) :
    ServedAlike w w' (.load a) := by
  have hkey : ∀ b r, w.batch.records.get? b = some r → (Slot.record a).key ≠ (Slot.record b).key := by
    rintro b r hb heq
    obtain rfl := Slot.record.inj (Slot.key_injective heq)
    simp [absent] at hb
  have hbuffered := run_attempt w (Program.record? a)
  have hthrough := run_attempt w' (Program.record? a)
  rw [run_record?_ofEntries h.store] at hbuffered
  rw [run_record?_ofEntries h.store', h.written.other _ hkey] at hthrough
  refine ⟨_, w, w', ?_, hthrough, h, gives_load rfl⟩
  rw [Step.serve, run_bind_of_ok w.run_batch]
  simp only [absent]
  exact hbuffered

/-- **A record that is put** is buffered on one side and written on the other. -/
theorem servedAlike_put (h : Lags w w') (a : AccountId) {r : Record} (fits : r.Fits) :
    ServedAlike w w' (.put a r) := by
  refine ⟨(), _, _, (run_bind_of_ok w.run_batch _).trans (w.run_keep _),
    run_write_ofEntries h.store' _, ?_, trivial⟩
  refine { h with store' := rfl, written := h.written.insert a r, fits := fun b r' hb => ?_ }
  rw [SortedMap.get?_insert] at hb
  split at hb
  · obtain rfl := Option.some.inj hb
    exact fits
  · exact h.fits b r' hb

/-- An event waits on both sides. -/
theorem servedAlike_announce (h : Lags w w') (callback : Callback) :
    ServedAlike w w' (.announce callback) :=
  ⟨(), _, _, (run_bind_of_ok w.run_batch _).trans (w.run_keep _),
    (run_bind_of_ok w'.run_batch _).trans (w'.run_keep _),
    { h with callbacks := congrArg (·.insert callback ()) h.callbacks }, trivial⟩

/-- A notice is told on both sides. -/
theorem servedAlike_tell (h : Lags w w') (notice : Notice) : ServedAlike w w' (.tell notice) :=
  ⟨(), _, _, w.run_tell _, w'.run_tell _,
    { h with log := congrArg (· ++ [Entry.notice notice]) h.log }, trivial⟩

/-- The parameters lie where no record lies. -/
theorem servedAlike_params (h : Lags w w') : ServedAlike w w' .params := by
  obtain ⟨found, hget, hget'⟩ := h.run_get .params nofun
  obtain ⟨x, hparams⟩ := exists_run_params found
  have hbuffered := run_attempt w Program.params
  have hthrough := run_attempt w' Program.params
  rw [hparams w hget] at hbuffered
  rw [hparams w' hget'] at hthrough
  exact ⟨x, w, w', hbuffered, hthrough, h, trivial⟩

/-- **What is written at once** is written on both sides, where no record lies. -/
theorem run_write (h : Lags w w') (slot : Slot) (hslot : ∀ a, slot ≠ .record a)
    (value : Option Value) :
    ∃ v v', w.run (Program.write (slot.key, value)).attempt = (.ok (.ok ()), v) ∧
      w'.run (Program.write (slot.key, value)).attempt = (.ok (.ok ()), v') ∧ Lags v v' := by
  refine ⟨_, _, run_attempt_of_ok (run_write_ofEntries h.store _),
    run_attempt_of_ok (run_write_ofEntries h.store' _), ?_⟩
  have hput := h.written.put (w := (slot.key, value)) fun a heq => hslot a (Slot.key_injective heq)
  exact { h with store := rfl, store' := rfl, written := hput }

/-- An entry is written into the queue on both sides. -/
theorem servedAlike_enqueue (h : Lags w w') (t : Timestamp) (a : AccountId) :
    ServedAlike w w' (.enqueue t a) := by
  obtain ⟨v, v', hrun, hrun', hlags⟩ := h.run_write (.downgrade t a) nofun (some marker)
  exact ⟨.ok (), v, v', hrun, hrun', hlags, trivial⟩

/-- An entry is taken off the queue on both sides. -/
theorem servedAlike_dequeue (h : Lags w w') (t : Timestamp) (a : AccountId) :
    ServedAlike w w' (.dequeue t a) := by
  obtain ⟨v, v', hrun, hrun', hlags⟩ := h.run_write (.downgrade t a) nofun none
  exact ⟨.ok (), v, v', hrun, hrun', hlags, trivial⟩

/-- A relation is marked on both sides. -/
theorem servedAlike_relate (h : Lags w w') (p c : AccountId) : ServedAlike w w' (.relate p c) := by
  obtain ⟨v, v', hrun, hrun', hlags⟩ := h.run_write (.relation p c) nofun (some marker)
  exact ⟨.ok (), v, v', hrun, hrun', hlags, trivial⟩

/-- **One step**, buffered and written through: what follows the answers is the same, though a record that
is buffered is answered with its padding on one side only. -/
theorem run_serve (h : Lags w w') (step : Step) {next : step.Answer → Cascade α}
    (suits : step.Suits next) :
    ∃ x x' v v', w.run step.serve = (.ok x, v) ∧ w'.run step.serveThrough = (.ok x', v') ∧
      Lags v v' ∧ step.Gives x ∧ next x = next x' := by
  cases step with
  | load a =>
      cases hr : w.batch.records.get? a with
      | none => exact (h.servedAlike_load hr).followed next
      | some r =>
          obtain ⟨hserve, hthrough⟩ := h.run_serve_load hr
          have hfits := h.fits a r hr
          refine ⟨_, _, w, w', hserve, hthrough, h, ?_, suits r hfits⟩
          rintro r' hr'
          obtain rfl := Option.some.inj (Except.ok.inj hr')
          exact hfits
  | put a r => exact (h.servedAlike_put a suits).followed next
  | announce callback => exact (h.servedAlike_announce callback).followed next
  | tell notice => exact (h.servedAlike_tell notice).followed next
  | params => exact h.servedAlike_params.followed next
  | enqueue t a => exact (h.servedAlike_enqueue t a).followed next
  | dequeue t a => exact (h.servedAlike_dequeue t a).followed next
  | relate p c => exact (h.servedAlike_relate p c).followed next

/-- **A blind cascade**, buffered and written through. -/
theorem run_buffered {c : Cascade α} (blind : c.Blind) (h : Lags w w') :
    (w.run c.buffered).1 = (w'.run c.writtenThrough).1 ∧
      Lags (w.run c.buffered).2 (w'.run c.writtenThrough).2 := by
  induction c generalizing w w' with
  | done a => exact ⟨rfl, h⟩
  | fail e => exact ⟨rfl, h⟩
  | ask step next ih =>
      obtain ⟨x, x', v, v', hserve, hthrough, hlags, given, hnext⟩ := h.run_serve step blind.1
      have hrun : w.run (Cascade.buffered (.ask step next)) = v.run (buffered (next x)) :=
        run_bind_of_ok hserve _
      have hrun' : w'.run (Cascade.writtenThrough (.ask step next)) =
          v'.run (writtenThrough (next x)) := by
        rw [hnext]
        exact run_bind_of_ok hthrough _
      rw [hrun, hrun']
      exact ih x (blind.2 x given) hlags

end Lags

/-! ### The end -/

/-- Writing records one by one writes them over the map. -/
theorem run_writeAll_ofEntries {l : List (AccountId × Record)} (distinct : (l.map (·.1)).Nodup)
    (h : w.store = .ofEntries m) :
    ∃ m', w.run (Cascade.writeAll l) = (.ok (), { w with store := .ofEntries m' }) ∧
      (∀ e ∈ l, m'.get? (Slot.record e.1).key = some e.2.encode) ∧
      ∀ k, (∀ e ∈ l, k ≠ (Slot.record e.1).key) → m'.get? k = m.get? k := by
  induction l generalizing w m with
  | nil => exact ⟨m, by rw [← h]; rfl, by simp, fun _ _ => rfl⟩
  | cons e rest ih =>
      obtain ⟨hnew, hrest⟩ := List.nodup_cons.mp distinct
      obtain ⟨a, r⟩ := e
      let w₁ : World := { w with store := .ofEntries (m.insert (Slot.record a).key r.encode) }
      have hset : w.run (Program.setRecord a r) = (.ok (), w₁) := run_write_ofEntries h _
      have hstore : w₁.store = .ofEntries (m.insert (Slot.record a).key r.encode) := rfl
      obtain ⟨m', hrun, hin, hout⟩ := ih hrest hstore
      refine ⟨m', (run_bind_of_ok hset _).trans hrun, ?_, fun k hk => ?_⟩
      · refine List.forall_mem_cons.mpr ⟨?_, hin⟩
        rw [hout, SortedMap.get?_insert_self]
        intro e he heq
        have hname : a = e.1 := Slot.record.inj (Slot.key_injective heq)
        exact hnew (List.mem_map.mpr ⟨e, he, hname.symm⟩)
      · obtain ⟨hk₁, hkrest⟩ := List.forall_mem_cons.mp hk
        rw [hout k hkrest, SortedMap.get?_insert_of_ne _ _ hk₁]

/-- Writing what is buffered closes the gap. -/
theorem Lags.run_writeAll (h : Lags w w') :
    World.run { w with batch := .empty } (Cascade.writeAll w.batch.records.toList) =
      (.ok (), { w' with batch := .empty }) := by
  have hstart : World.store { w with batch := .empty } = .ofEntries w.store.base.entries := h.store
  obtain ⟨m', hrun, hin, hout⟩ :=
    run_writeAll_ofEntries (SortedMap.nodup_keys w.batch.records) hstart
  have hwritten : Written w.batch.records w.store.base.entries m' := by
    refine ⟨fun a r hr => hin (a, r) (SortedMap.mem_toList_iff.mpr hr), fun k hk => ?_⟩
    exact hout k fun e he => hk e.1 e.2 (SortedMap.mem_toList_iff.mp he)
  rw [hrun, hwritten.unique h.written, ← h.store', ← h.log]

/-- **The end of a cascade**, buffered and written through. -/
theorem Lags.run_flush (h : Lags w w') (host : Host) :
    w.run (Cascade.flush host) = w'.run (Cascade.flush host) := by
  have hnone : Cascade.writeAll w'.batch.records.toList = pure () := by rw [h.records]; rfl
  rw [Cascade.flush, run_bind_of_ok w.run_batch, run_bind_of_ok w'.run_batch,
    run_bind_of_ok (w.run_keep .empty), run_bind_of_ok (w'.run_keep .empty),
    run_bind_of_ok h.run_writeAll, hnone, h.callbacks]
  rfl

end World

namespace Cascade

variable {α τ : Type} {m : SortedMap Key Value}

/-- A blind cascade that is carried out ends, and tells, as it does written through. If it ends well, it
leaves the same store. -/
theorem Blind.run_commit {c : Cascade α} (blind : c.Blind) (host : Host) (m : SortedMap Key Value) :
    let w := World.ofStore (.ofEntries m)
    (w.run (c.commit host)).1 = (w.run (c.commitThrough host)).1 ∧
      (w.run (c.commit host)).2.log = (w.run (c.commitThrough host)).2.log ∧
      ∀ result, (w.run (c.commit host)).1 = .ok result →
        (w.run (c.commit host)).2 = (w.run (c.commitThrough host)).2 := by
  intro w
  have hstart : World.Lags w w :=
    ⟨rfl, rfl, .empty m, nofun, rfl, rfl, rfl⟩
  obtain ⟨hresult, hlags⟩ := hstart.run_buffered blind
  have hkeep : w.run (Program.keep .empty) = (.ok (), w) := w.run_keep .empty
  rw [commit, commitThrough, World.run_bind_of_ok hkeep, World.run_bind_of_ok hkeep]
  cases hbuffered : w.run c.buffered with
  | mk x v =>
      cases hthrough : w.run c.writtenThrough with
      | mk x' v' =>
          rw [hbuffered, hthrough] at hresult hlags
          obtain rfl : x = x' := hresult
          cases x with
          | error e =>
              rw [World.run_bind_of_error hbuffered, World.run_bind_of_error hthrough]
              exact ⟨rfl, hlags.log.symm, nofun⟩
          | ok result =>
              rw [World.run_bind_of_ok hbuffered, World.run_bind_of_ok hthrough]
              rw [World.run_bind_congr (hlags.run_flush host)]
              exact ⟨rfl, rfl, fun _ _ => rfl⟩

/-- **Buffering is transparent.** Whatever the store holds, a course that is carried out gets the answers
that it gets when each update writes its record at once and each record is read from the store again, and
tells the same lines in the same order. If it ends well, it leaves the same store. -/
theorem Course.commit_transparent (host : Host) (m : SortedMap Key Value) (course : Course τ α) :
    let w := World.ofStore (.ofEntries m)
    let buffered := w.run (course.cascade.commit host)
    let through := w.run (course.cascade.commitThrough host)
    buffered.1 = through.1 ∧ buffered.2.log = through.2.log ∧
      ∀ result, buffered.1 = .ok result → buffered.2 = through.2 :=
  course.blind_cascade.run_commit host m

end Cascade

end ReferralForest

import ReferralForest.Proofs.Cascade.Closure
import ReferralForest.Proofs.Cascade.Dispatch
import ReferralForest.Proofs.Cascade.Reversing

/-!
# Cascades That Only Load and Put

What a store holds besides records makes no difference to a cascade that does nothing but load and put
records, and neither does whether the records fit together. So what such a cascade yields from the records
that can be read is what carrying it out leaves, in every store whose records can be read at all.

Records are read padded. What has been read is whole, and what is whole is read as it was written.

## Main definitions

* `Store.Decodable` — all records of a store can be read.
* `Roster.draft` — a draft that has records and nothing else.
* `Cascade.Step.OnRecords` — the steps that load or put a record.
* `Prepares` — a world in the course of such a cascade, and the draft it stands for.

## Main statements

* `Store.Decodable.exists_holds` — a store whose records can be read holds a roster.
* `Prepares.run_buffered` — step for step, a buffered cascade does to its world what it does to the draft.
* `Store.Holds.run_commit` — a cascade that is carried out leaves the records it yields.
* `Cascade.only_setActive` — without status checks, making an account active loads and puts records only.
-/

namespace ReferralForest

/-! ### Reading -/

/-- What is decoded is whole. -/
theorem Record.whole_of_decode {bytes : Value} {r : Record} (h : decode bytes = .ok r) : r.Whole := by
  refine ⟨?_, fits_of_decode h⟩
  rw [decode] at h
  split at h
  next stored _ _ =>
      obtain rfl := Except.ok.inj h
      exact stored.length_normalize
  next => contradiction

/-- What is whole is decoded as it was encoded. -/
theorem Record.Whole.decode_encode {r : Record} (h : r.Whole) : decode r.encode = .ok r := by
  rw [decode_encode_normalize h.fits, normalize_of_length h.padded]

namespace Store

variable {store : Store} {m : Roster}

/-- All records of a store can be read. -/
def Decodable (store : Store) : Prop :=
  ∀ a bytes, store.view.get? (Slot.record a).key = some bytes → ∃ r, Record.decode bytes = .ok r

/-- All records of an empty store can be read. -/
theorem decodable_empty : (Store.ofEntries .empty).Decodable := by
  intro a bytes h
  rw [show (Store.ofEntries .empty).view = .empty from rfl, SortedMap.get?_empty] at h
  contradiction

/-- One more record that can be read. -/
theorem Decodable.insert {entries : SortedMap Key Value} (h : (Store.ofEntries entries).Decodable)
    (a : AccountId) {r : Record} (fits : r.Fits) :
    (Store.ofEntries (entries.insert (Slot.record a).key r.encode)).Decodable := by
  classical
  intro b bytes hbytes
  rw [show (Store.ofEntries (entries.insert (Slot.record a).key r.encode)).view =
    entries.insert (Slot.record a).key r.encode from rfl, SortedMap.get?_insert] at hbytes
  split at hbytes
  · obtain rfl := Option.some.inj hbytes
    exact ⟨_, Record.decode_encode_normalize fits⟩
  · exact h b bytes hbytes

/-- **What a store holds**, in terms of the bytes in its view. -/
theorem holds_iff (free : store.Unlimited) : store.Holds m ↔ ∀ a,
    (match store.view.get? (Slot.record a).key with
      | some bytes => (Record.decode bytes).map some
      | none => .ok none) = .ok (m.get? a) := by
  refine forall_congr' fun a => ?_
  rw [World.run_record?_view (w := World.ofStore store) free a, Prod.mk.injEq]
  exact and_iff_left rfl

/-- **A store whose records can be read** holds a roster. -/
theorem Decodable.exists_holds (h : store.Decodable) (free : store.Unlimited) :
    ∃ m : Roster, store.Holds m := by
  let read (a : AccountId) : Option Record :=
    (store.view.get? (Slot.record a).key).bind fun bytes => (Record.decode bytes).toOption
  have hsupport : ∀ a, read a ≠ none →
      a ∈ store.view.keys.filterMap fun key => (Slot.parseRecord key).toOption := by
    intro a ha
    refine List.mem_filterMap.mpr ⟨(Slot.record a).key, SortedMap.mem_keys_iff.mpr fun hnone => ha ?_, ?_⟩
    · simp only [read, hnone, Option.bind_none]
    · rw [Slot.parseRecord_key]
      rfl
  obtain ⟨m, hm⟩ := SortedMap.exists_get?_eq read _ hsupport
  refine ⟨m, (holds_iff free).mpr fun a => ?_⟩
  rw [hm]
  cases hbytes : store.view.get? (Slot.record a).key with
  | none => simp only [read, hbytes, Option.bind_none]
  | some bytes =>
      obtain ⟨r, hr⟩ := h a bytes hbytes
      simp only [read, hbytes, hr, Option.bind_some]
      rfl

/-- **What is read is whole.** -/
theorem Holds.whole (h : store.Holds m) (free : store.Unlimited) : m.Whole := by
  intro a r hr
  have hread := (holds_iff free).mp h a
  rw [hr] at hread
  split at hread
  next bytes _ =>
      cases hdecode : Record.decode bytes with
      | error e =>
          rw [hdecode] at hread
          contradiction
      | ok r' =>
          rw [hdecode] at hread
          obtain rfl := Option.some.inj (Except.ok.inj hread)
          exact Record.whole_of_decode hdecode
  next => exact nomatch hread

/-- Records written over those of a store are read instead of them, if they are whole. -/
theorem Holds.written {store' : Store} {m' : Roster} {records : SortedMap AccountId Record}
    (h : store.Holds m) (free : store.Unlimited) (free' : store'.Unlimited) (whole : m'.Whole)
    (laid : ∀ a, m'.get? a = (records.get? a).or (m.get? a))
    (written : Written records store.view store'.view) : store'.Holds m' := by
  refine (holds_iff free').mpr fun a => ?_
  rw [laid]
  cases hr : records.get? a with
  | some r =>
      have hwhole : r.Whole := whole a r (by rw [laid, hr, Option.some_or])
      simp only [written.record a r hr, hwhole.decode_encode, Option.some_or]
      rfl
  | none =>
      have hother : ∀ b s, records.get? b = some s → (Slot.record a).key ≠ (Slot.record b).key := by
        intro b s hs hkey
        obtain rfl := Slot.record.inj (Slot.key_injective hkey)
        rw [hr] at hs
        contradiction
      rw [written.other _ hother, Option.none_or]
      exact (holds_iff free).mp h a

end Store

/-! ### Loading and putting -/

/-- The draft that has the given records and nothing else. -/
def Roster.draft (m : Roster) : Draft := Ledger.draft ⟨m, ∅, ∅, none⟩

/-- The steps that load or put a record. -/
def Cascade.Step.OnRecords : Cascade.Step → Prop
  | .load _ | .put .. => True
  | _ => False

/-- **A world in the course of a cascade that only loads and puts**, and the draft it stands for: the store
is as it was, the records of the draft lie in the batch and below it in the store, and no event waits. -/
structure Prepares (store : Store) (m : Roster) (w : World) (D : Draft) : Prop where
  store_eq : w.store = store
  records : ∀ a, D.records.get? a = (w.batch.records.get? a).or (m.get? a)
  callbacks : w.batch.callbacks = .empty

namespace Prepares

open Cascade

variable {α : Type} {store : Store} {m : Roster} {w : World} {D : Draft} (free : store.Unlimited)
  (holds : store.Holds m)
include free holds

/-- **One step**, buffered and on the draft. -/
theorem run_serve (h : Prepares store m w D) {step : Step} (only : step.OnRecords) :
    ∃ w', w.run step.serve = ((D.answer step).1, w') ∧ Prepares store m w' (D.answer step).2 := by
  cases step with
  | load a =>
      refine ⟨w, ?_, h⟩
      rw [Step.serve, World.run_bind_of_ok w.run_batch]
      cases hr : w.batch.records.get? a with
      | some r =>
          simp only [Draft.answer, h.records a, hr, Option.some_or]
          rfl
      | none =>
          have hfree : w.store.Unlimited := h.store_eq ▸ free
          have hread : w.run (Program.record? a) = (.ok (m.get? a), w) := by
            rw [World.run_record?_view hfree, h.store_eq]
            exact congrArg (·, w) ((Store.holds_iff free).mp holds a)
          simp only [Draft.answer, h.records a, hr, Option.none_or]
          exact World.run_attempt_of_ok hread
  | put a r =>
      refine ⟨_, (World.run_bind_of_ok w.run_batch _).trans (w.run_keep _), h.store_eq, fun b => ?_,
        h.callbacks⟩
      classical
      simp only [Draft.answer, Draft.withLedger, Ledger.put, SortedMap.get?_insert, h.records b]
      split <;> simp
  | _ => exact only.elim

/-- **A buffered cascade** ends as it ends on the draft, and leaves a world that stands for the draft it
leaves. -/
theorem run_buffered (h : Prepares store m w D) {c : Cascade α} (only : c.Only Step.OnRecords) :
    ∃ w', w.run c.buffered = ((c.runWith (fun step D => D.answer step) D).1, w') ∧
      Prepares store m w' (c.runWith (fun step D => D.answer step) D).2 := by
  induction c generalizing w D with
  | done a => exact ⟨w, rfl, h⟩
  | fail e => exact ⟨w, rfl, h⟩
  | ask step next ih =>
      obtain ⟨reply, D₁, hanswer⟩ := D.exists_answer_eq_ok step
      obtain ⟨w₁, hserve, h₁⟩ := run_serve free holds h only.1
      rw [hanswer] at hserve h₁
      obtain ⟨w', hrun, h'⟩ := ih reply h₁ (only.2 reply)
      rw [Dialogue.runWith, hanswer]
      exact ⟨w', (World.run_bind_of_ok hserve _).trans hrun, h'⟩

/-- Writing what is buffered gives the store the records of the draft, and there is nobody to call. -/
theorem run_flush (h : Prepares store m w D) (host : Host) :
    ∃ w', w.run (flush host) = (.ok (), w') ∧ w'.store.Unlimited ∧
      (D.records.Whole → w'.store.Holds D.records) := by
  let emptied : World := { w with batch := .empty }
  have hfree : emptied.store.Unlimited := h.store_eq ▸ free
  obtain ⟨store', hwrite, free', hview⟩ := World.run_writeAll_view hfree w.batch.records.toList
  refine ⟨{ emptied with store := store' }, ?_, free', fun whole => ?_⟩
  · rw [flush, World.run_bind_of_ok w.run_batch, World.run_bind_of_ok (w.run_keep .empty), h.callbacks]
    exact World.run_bind_of_ok hwrite _
  · have hwritten : Written w.batch.records store.view store'.view := by
      rw [hview, show emptied.store = store from h.store_eq]
      exact .of_toList _ _
    exact holds.written free free' whole h.records hwritten

end Prepares

/-- **A cascade that only loads and puts**, carried out on a store: it ends as it ends on the draft of the
records that the store holds, and if it leaves whole records there, the store holds them afterwards. -/
theorem Store.Holds.run_commit {α : Type} {store : Store} {m : Roster} (holds : store.Holds m)
    (free : store.Unlimited) (host : Host) {c : Cascade α} (only : c.Only Cascade.Step.OnRecords) :
    ∃ w', (World.ofStore store).run (c.commit host) =
        ((c.runWith (fun step D => D.answer step) m.draft).1, w') ∧
      ∀ a D', c.Yields m.draft a D' → D'.records.Whole →
        w'.store.Unlimited ∧ w'.store.Holds D'.records := by
  have hstart : Prepares store m (World.ofStore store) m.draft :=
    ⟨rfl, fun a => by simp [World.ofStore, Batch.empty, Roster.draft, Ledger.draft], rfl⟩
  obtain ⟨w₁, hbuffered, h₁⟩ := hstart.run_buffered free holds only
  have hbegin : (World.ofStore store).run (c.commit host) = (World.ofStore store).run
      (c.buffered >>= fun result => Cascade.flush host >>= fun _ => pure result) :=
    World.run_bind_of_ok ((World.ofStore store).run_keep .empty) _
  cases hrun : c.runWith (fun step D => D.answer step) m.draft with
  | mk result D₁ =>
      rw [hrun] at hbuffered h₁
      cases result with
      | error e =>
          refine ⟨w₁, hbegin.trans (World.run_bind_of_error hbuffered _), fun a D' hyields => ?_⟩
          rw [Cascade.Yields, hrun] at hyields
          obtain ⟨hresult, -⟩ := Prod.mk.inj hyields
          contradiction
      | ok a =>
          obtain ⟨w', hflush, hfree, hholds⟩ := h₁.run_flush free holds host
          refine ⟨w', ?_, fun b D' hyields whole => ?_⟩
          · rw [hbegin, World.run_bind_of_ok hbuffered, World.run_bind_of_ok hflush]
            rfl
          · rw [Cascade.Yields, hrun] at hyields
            obtain ⟨-, rfl⟩ := Prod.mk.inj hyields
            exact ⟨hfree, hholds whole⟩

/-! ### Cascades made of adjustments -/

namespace Cascade

variable {α β : Type}

/-- A change that checks one quantity asks for nothing. -/
theorem only_checked_bind {quantity : String} {x : Option α} {result : α → β} :
    Dialogue.Only Step.OnRecords (checked quantity x >>= fun a => .done (result a) : Cascade β) := by
  cases x <;> trivial

/-- Adjustments of a record ask for nothing. -/
theorem Adjusts.only {change : Record → Cascade (β × Record)} (h : Adjusts change) (r : Record) :
    (change r).Only Step.OnRecords := by
  cases h with
  | flipRecord active delta =>
      rw [Cascade.flipRecord]
      split
      · trivial
      · exact only_checked_bind
  | _ => exact only_checked_bind

/-- An update without a check loads and puts a record. -/
theorem only_update {change : Record → Cascade (β × Record)} (h : Adjusts change) (a : AccountId) :
    (update none a change).Only Step.OnRecords := by
  have hload : (load a).Only Step.OnRecords := ⟨trivial, fun found => Dialogue.only_ofExcept _ found⟩
  refine (hload.mapError _).bind fun found => ?_
  cases found with
  | none => trivial
  | some r =>
      refine ((h.only r.normalize).mapError _).bind fun changed => ?_
      exact ⟨trivial, fun _ => trivial⟩

/-- **Without status checks**, making an account active or inactive loads and puts records only. -/
theorem only_setActive (a : AccountId) (active : Bool) :
    (setActive none a active).Only Step.OnRecords := by
  have hcomposed : ComposedAt none fun _ c => c.Only Step.OnRecords :=
    { done := fun _ => trivial
      bind := fun hc hf => hc.bind hf
      adjust := fun h c hc a => by
        obtain rfl : c = none := hc.elim id id
        exact only_update h a }
  exact hcomposed.setActive a active

end Cascade

end ReferralForest

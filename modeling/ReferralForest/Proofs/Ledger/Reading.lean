import ReferralForest.Proofs.Ledger.Basic
import ReferralForest.Proofs.Program.Run

/-!
# Reading and Writing a Ledger

A world *keeps* a ledger if its store admits every call and the ledger is stored in it. Every program
that reads slots then answers with what the ledger says and changes nothing, and every program that
writes a slot leaves a world that keeps the ledger with that change.

## Main definitions

* `World.Keeps` — the ledger that a world's store holds.
* `QueueBefore` — the order of the downgrade queue.

## Main statements

* `run_record?`, `run_hasRecord`, `run_params`, `run_allRecords`, `run_scheduled` — the answers of
  the programs that read.
* `Ledger.StoredIn.exists_marked_entries` — the entries of a family of marked slots.
* `World.Keeps.unique` — what a world keeps is one ledger.
* `run_setRecord`, `run_schedule`, `run_unschedule`, `run_relate`, `run_setParams` — the effects of
  the programs that write.
-/

namespace ReferralForest

/-- The order of the downgrade queue: by time, and at one time by account. -/
def QueueBefore (p q : Timestamp × AccountId) : Prop :=
  p.1 < q.1 ∨ p.1 = q.1 ∧ compare p.2 q.2 = .lt

/-- The order of the queue is that of its keys. -/
theorem queueBefore_iff {p q : Timestamp × AccountId} :
    QueueBefore p q ↔
      compare (Slot.downgrade p.1 p.2).key (Slot.downgrade q.1 q.2).key = .lt := by
  rw [Slot.compare_key_downgrade, Ordering.then_eq_lt, Nat.compare_eq_lt, Nat.compare_eq_eq,
    QueueBefore, Timestamp.lt_iff, Timestamp.ext_iff]

/-- Entries that are read one by one. -/
theorem mapM_map_eq_ok {α β γ ε : Type} {read : β → Except ε γ} {write : α → β} {f : α → γ}
    {l : List α} (h : ∀ x ∈ l, read (write x) = .ok (f x)) :
    (l.map write).mapM read = .ok (l.map f) := by
  induction l with
  | nil => rfl
  | cons x rest ih =>
      have hrest := ih fun y hy => h y (List.mem_cons_of_mem _ hy)
      rw [List.map_cons, List.mapM_cons, h x List.mem_cons_self, hrest]
      rfl

/-- Entries that are read back one by one are read back. -/
theorem mapM_map_of_ok {α β ε : Type} {read : β → Except ε α} {write : α → β} {l : List α}
    (h : ∀ x ∈ l, read (write x) = .ok x) : (l.map write).mapM read = .ok l := by
  have hread := mapM_map_eq_ok (f := id) h
  rwa [List.map_id] at hread

/-- Entries that are read at once have been read one by one. -/
theorem map_eq_of_mapM_eq_ok {α β ε : Type} {read : α → Except ε β} {l : List α} {l' : List β}
    (h : l.mapM read = .ok l') : l.map read = l'.map .ok := by
  induction l generalizing l' with
  | nil =>
      obtain rfl := Except.ok.inj h
      rfl
  | cons x rest ih =>
      rw [List.mapM_cons] at h
      cases hx : read x with
      | error e =>
          rw [hx] at h
          contradiction
      | ok y =>
          cases hrest : rest.mapM read with
          | error e =>
              rw [hx, hrest] at h
              contradiction
          | ok ys =>
              rw [hx, hrest] at h
              obtain rfl := Except.ok.inj h
              rw [List.map_cons, List.map_cons, hx, ih hrest]

/-- **The ledger that a world's store holds.** -/
structure World.Keeps (w : World) (L : Ledger) : Prop where
  /-- The store admits every call. -/
  free : w.store.Unlimited
  /-- The ledger is stored in it. -/
  stored : L.StoredIn w.store.view

namespace Ledger

variable {L : Ledger} {m : SortedMap Key Value}

/-- A record as it is stored. -/
def recordEntry (e : AccountId × Record) : Key × Value := ((Slot.record e.1).key, e.2.encode)

/-- An entry of the queue as it is stored. -/
def queueEntry (p : Timestamp × AccountId) : Key × Value := ((Slot.downgrade p.1 p.2).key, marker)

/-- Every entry of a stored ledger is that of a slot. -/
theorem StoredIn.get?_eq_some_iff (h : L.StoredIn m) {k : Key} {v : Value} :
    m.get? k = some v ↔ ∃ slot : Slot, slot.key = k ∧ L.value? slot = some v := by
  constructor
  · intro hk
    obtain ⟨slot, rfl⟩ := h.only k v hk
    exact ⟨slot, rfl, h.value slot ▸ hk⟩
  · rintro ⟨slot, rfl, hv⟩
    rw [h.value, hv]

/-- **The stored entries of all records**, in account order. -/
theorem StoredIn.toList_records (h : L.StoredIn m) :
    (m.filter fun k _ => Slot.allRecords.contains k).toList = L.records.toList.map recordEntry := by
  refine SortedMap.toList_eq_of_mem_iff (List.pairwise_map.mpr ?_) fun k v => ?_
  · exact L.records.sorted.imp fun {a b} hab => (Slot.compare_key_record a.1 b.1).trans hab
  · rw [SortedMap.get?_filter_key, List.mem_map]
    constructor
    · rintro ⟨⟨a, r⟩, he, heq⟩
      obtain ⟨rfl, rfl⟩ := Prod.mk.inj heq
      rw [if_pos (Slot.allRecords_contains_key_iff.mpr ⟨a, rfl⟩), h.value, value?,
        SortedMap.mem_toList_iff.mp he]
      rfl
    · intro hk
      split at hk
      next hrange =>
          obtain ⟨slot, rfl, hv⟩ := h.get?_eq_some_iff.mp hk
          obtain ⟨a, rfl⟩ := Slot.allRecords_contains_key_iff.mp hrange
          obtain ⟨r, hr, rfl⟩ := Option.map_eq_some_iff.mp hv
          exact ⟨(a, r), SortedMap.mem_toList_iff.mpr hr, rfl⟩
      next => contradiction

/-- **The stored entries of a family of marked slots** within a range, in the order of their keys. -/
theorem StoredIn.exists_marked_entries {ι : Type} {family : ι → Slot} {marked : Set ι} {P : ι → Prop}
    {range : KeyRange} (h : L.StoredIn m) (injective : Function.Injective family)
    (covers : ∀ slot : Slot, range.contains slot.key = true ↔ ∃ i, slot = family i ∧ P i)
    (marks : ∀ i v, L.value? (family i) = some v ↔ i ∈ marked ∧ v = marker) :
    ∃ l : List ι, l.Pairwise (fun i j => compare (family i).key (family j).key = .lt) ∧
      (∀ i, i ∈ l ↔ i ∈ marked ∧ P i) ∧
      (m.filter fun k _ => range.contains k).toList = l.map fun i => ((family i).key, marker) := by
  have hentry : ∀ k v, (k, v) ∈ (m.filter fun k _ => range.contains k).toList ↔
      ∃ i, (i ∈ marked ∧ P i) ∧ ((family i).key, marker) = (k, v) := by
    intro k v
    rw [SortedMap.mem_toList_iff, SortedMap.get?_filter_key]
    constructor
    · intro hk
      split at hk
      next hrange =>
          obtain ⟨slot, rfl, hv⟩ := h.get?_eq_some_iff.mp hk
          obtain ⟨i, rfl, hi⟩ := (covers slot).mp hrange
          obtain ⟨hmem, rfl⟩ := (marks i v).mp hv
          exact ⟨i, ⟨hmem, hi⟩, rfl⟩
      next => contradiction
    · rintro ⟨i, ⟨hmem, hi⟩, heq⟩
      obtain ⟨rfl, rfl⟩ := Prod.mk.inj heq
      rw [if_pos ((covers _).mpr ⟨i, rfl, hi⟩), h.value]
      exact (marks i marker).mpr ⟨hmem, rfl⟩
  have hrange : (m.filter fun k _ => range.contains k).toList ∈
      Set.range (List.map fun i => ((family i).key, marker)) := by
    rw [Set.range_list_map]
    rintro ⟨k, v⟩ he
    obtain ⟨i, -, heq⟩ := (hentry k v).mp he
    exact ⟨i, heq⟩
  obtain ⟨l, hl⟩ := hrange
  have hinj : Function.Injective fun i => ((family i).key, marker) := fun i j heq =>
    injective (Slot.key_injective (Prod.mk.inj heq).1)
  have hsorted := (m.filter fun k _ => range.contains k).sorted
  rw [← hl, List.pairwise_map] at hsorted
  refine ⟨l, hsorted, fun i => ?_, hl.symm⟩
  have hmem := hentry (family i).key marker
  rw [← hl, List.mem_map_of_injective hinj (a := i)] at hmem
  rw [hmem]
  constructor
  · rintro ⟨j, hj, heq⟩
    exact hinj heq ▸ hj
  · exact fun hi => ⟨i, hi, rfl⟩

/-- **The stored entries of a part of the queue**, in the order of the queue. -/
theorem StoredIn.exists_queue_entries (h : L.StoredIn m) {range : KeyRange} {P : Timestamp → Prop}
    (covers : ∀ slot : Slot, range.contains slot.key = true ↔
      ∃ t a, slot = .downgrade t a ∧ P t) :
    ∃ l : List (Timestamp × AccountId), l.Pairwise QueueBefore ∧
      (∀ t a, (t, a) ∈ l ↔ (t, a) ∈ L.queue ∧ P t) ∧
      (m.filter fun k _ => range.contains k).toList = l.map queueEntry := by
  have hinj : Function.Injective fun e : Timestamp × AccountId => Slot.downgrade e.1 e.2 := by
    rintro ⟨t, a⟩ ⟨s, b⟩ heq
    obtain ⟨rfl, rfl⟩ := Slot.downgrade.inj heq
    rfl
  have hcovers : ∀ slot : Slot, range.contains slot.key = true ↔
      ∃ e : Timestamp × AccountId, slot = .downgrade e.1 e.2 ∧ P e.1 := by
    intro slot
    rw [covers, Prod.exists]
  have hmarks : ∀ (e : Timestamp × AccountId) (v : Value),
      L.value? (.downgrade e.1 e.2) = some v ↔ e ∈ L.queue ∧ v = marker := by
    intro e v
    rw [value?, Option.ite_none_right_eq_some, Option.some_inj, eq_comm (a := marker)]
  obtain ⟨l, hsorted, hmem, hl⟩ := h.exists_marked_entries hinj hcovers hmarks
  exact ⟨l, hsorted.imp queueBefore_iff.mpr, fun t a => hmem (t, a), hl⟩

/-- A ledger has no more records than its map has keys. -/
theorem StoredIn.size_records_le (h : L.StoredIn m) : L.records.size ≤ m.size := by
  have hlength := congrArg List.length h.toList_records
  rw [List.length_map] at hlength
  rw [SortedMap.size, ← hlength]
  exact List.length_filter_le _ _

/-- **Only one map** stores a ledger. -/
theorem StoredIn.eq_map {m' : SortedMap Key Value} (h : L.StoredIn m) (h' : L.StoredIn m') : m = m' :=
  SortedMap.ext_get? fun k => Option.ext fun v => by
    rw [h.get?_eq_some_iff, h'.get?_eq_some_iff]

end Ledger

namespace World

variable {w : World} {L : Ledger}

/-! ### Programs that read -/

namespace Keeps

/-- A new branch keeps what is below it. -/
theorem branch (h : w.Keeps L) : World.Keeps { w with store := w.store.branch } L :=
  ⟨h.free, w.store.view_branch.symm ▸ h.stored⟩

/-- Reading a slot. -/
theorem run_get (h : w.Keeps L) (slot : Slot) :
    w.run (Program.get slot.key) = (.ok (L.value? slot), w) := by
  rw [World.run_get, Store.get_eq_view h.free, h.stored.value]
  rfl

/-- **Looking up a record.** -/
theorem run_record? (h : w.Keeps L) (a : AccountId) :
    w.run (Program.record? a) = (.ok (L.records.get? a), w) := by
  rw [Program.record?]
  rw [run_bind_of_ok (h.run_get (.record a))]
  cases hr : L.records.get? a with
  | none => simp [Ledger.value?, hr]
  | some r =>
      have hdecode := Record.decode_encode (h.stored.full a r hr)
      simp only [Ledger.value?, hr, Option.map_some]
      rw [hdecode]
      rfl

/-- Asking for a record. -/
theorem run_record (h : w.Keeps L) (a : AccountId) :
    w.run (Program.record a) =
      (match L.records.get? a with
        | some r => .ok r
        | none => .error (.notFound a), w) := by
  rw [Program.record]
  rw [run_bind_of_ok (h.run_record? a)]
  cases L.records.get? a <;> rfl

/-- Asking whether an account has a record. -/
theorem run_hasRecord (h : w.Keeps L) (a : AccountId) :
    w.run (Program.hasRecord a) = (.ok (L.records.get? a).isSome, w) := by
  rw [Program.hasRecord, Program.has, run_map_of_ok (h.run_get (.record a)), Ledger.value?,
    Option.isSome_map]

/-- Asking for the parameters. -/
theorem run_params (h : w.Keeps L) :
    w.run Program.params = (.ok (L.params.getD .default), w) := by
  rw [Program.params]
  rw [run_bind_of_ok (h.run_get .params)]
  cases hp : L.params with
  | none => simp [Ledger.value?, hp]
  | some p => simp [Ledger.value?, hp, Params.decode_encode]

/-- Listing a range. -/
theorem run_range (h : w.Keeps L) (range : KeyRange) :
    w.run (Program.range range) =
      (.ok (w.store.view.filter fun k _ => range.contains k).toList, w) := by
  rw [World.run_range, Store.range_eq_view h.free]
  rfl

/-- **Listing all records**, in account order. -/
theorem run_allRecords (h : w.Keeps L) :
    w.run Program.allRecords = (.ok L.records.toList, w) := by
  rw [Program.allRecords]
  rw [run_bind_of_ok (h.run_range Slot.allRecords), h.stored.toList_records, run_ofExcept,
    mapM_map_of_ok]
  rintro ⟨a, r⟩ he
  have hr := h.stored.full a r (SortedMap.mem_toList_iff.mp he)
  simp only [Program.readRecordEntry, Ledger.recordEntry, Slot.parseRecord_key,
    Record.decode_encode hr]
  rfl

/-- **Listing the downgrade queue**, in order of time and account. -/
theorem run_scheduled (h : w.Keeps L) :
    ∃ l : List (Timestamp × AccountId), l.Pairwise QueueBefore ∧
      (∀ t a, (t, a) ∈ l ↔ (t, a) ∈ L.queue) ∧ w.run Program.scheduled = (.ok l, w) := by
  have covers : ∀ slot : Slot, Slot.allDowngrades.contains slot.key = true ↔
      ∃ t a, slot = .downgrade t a ∧ True := by
    intro slot
    simp [Slot.allDowngrades_contains_key_iff]
  obtain ⟨l, hsorted, hmem, hl⟩ := h.stored.exists_queue_entries covers
  refine ⟨l, hsorted, fun t a => (hmem t a).trans (and_iff_left trivial), ?_⟩
  rw [Program.scheduled]
  rw [run_bind_of_ok (h.run_range Slot.allDowngrades), hl, run_ofExcept, mapM_map_of_ok]
  rintro ⟨t, a⟩ -
  exact Slot.parseDowngrade_key t a

/-- **A world keeps one ledger only.** -/
theorem unique {L' : Ledger} (h : w.Keeps L) (h' : w.Keeps L') : L = L' := by
  classical
  have hvalue : ∀ slot, L.value? slot = L'.value? slot := fun slot =>
    (h.stored.value slot).symm.trans (h'.stored.value slot)
  have hmarked : ∀ {p q : Prop},
      (if p then some marker else none) = (if q then some marker else none) → (p ↔ q) := by
    intro p q heq
    split_ifs at heq <;> simp_all
  refine Ledger.ext (SortedMap.ext_get? fun a => ?_) (Set.ext fun ⟨t, a⟩ => ?_)
    (Set.ext fun ⟨p, c⟩ => ?_) ?_
  · have hsame := (h.run_record? a).symm.trans (h'.run_record? a)
    exact Except.ok.inj (Prod.mk.inj hsame).1
  · exact hmarked (hvalue (.downgrade t a))
  · exact hmarked (hvalue (.relation p c))
  · refine Option.map_injective (fun p q hpq => ?_) (hvalue .params)
    have hread := congrArg Params.decode hpq
    rwa [Params.decode_encode, Params.decode_encode, Except.ok.injEq] at hread

end Keeps

/-! ### Programs that write -/

/-- The effect of one write on a world. -/
theorem Keeps.run_write (h : w.Keeps L) (write : Store.Write) :
    ∃ w', w.run (Program.write write) = (.ok (), w') ∧ w'.store.Unlimited ∧
      w'.store.view = Store.put w.store.view write ∧ w'.batch = w.batch ∧ w'.log = w.log := by
  obtain ⟨store', hwrite, hfree, hview⟩ := Store.write_view h.free write
  refine ⟨{ w with store := store' }, ?_, hfree, hview, rfl, rfl⟩
  rw [World.run_write, hwrite]
  rfl

/-- A world that differs in its ledger only. -/
def Becomes (w : World) (L : Ledger) (w' : World) : Prop :=
  w'.Keeps L ∧ w'.batch = w.batch ∧ w'.log = w.log

namespace Keeps

/-- A program that makes one write leaves the ledger with that write in it. -/
theorem run_write_becomes (h : w.Keeps L) {L' : Ledger} {write : Store.Write}
    (stored : L'.StoredIn (Store.put w.store.view write)) :
    ∃ w', w.run (Program.write write) = (.ok (), w') ∧ w.Becomes L' w' := by
  obtain ⟨w', hrun, hfree, hview, hbatch, hlog⟩ := h.run_write write
  exact ⟨w', hrun, ⟨hfree, hview ▸ stored⟩, hbatch, hlog⟩

/-- Writing a record. -/
theorem run_setRecord (h : w.Keeps L) {a : AccountId} {r : Record}
    (hr : r.generations.length = generationCount) :
    ∃ w', w.run (Program.setRecord a r) = (.ok (), w') ∧ w.Becomes (L.put a r) w' :=
  h.run_write_becomes (h.stored.put_record hr)

/-- Putting an account into the queue. -/
theorem run_schedule (h : w.Keeps L) (t : Timestamp) (a : AccountId) :
    ∃ w', w.run (Program.schedule t a) = (.ok (), w') ∧ w.Becomes (L.enqueue t a) w' :=
  h.run_write_becomes (h.stored.put_enqueue t a)

/-- Taking an account out of the queue. -/
theorem run_unschedule (h : w.Keeps L) (t : Timestamp) (a : AccountId) :
    ∃ w', w.run (Program.unschedule t a) = (.ok (), w') ∧ w.Becomes (L.dequeue t a) w' :=
  h.run_write_becomes (h.stored.put_dequeue t a)

/-- Marking a referral. -/
theorem run_relate (h : w.Keeps L) (parent child : AccountId) :
    ∃ w', w.run (Program.set (Slot.relation parent child).key marker) = (.ok (), w') ∧
      w.Becomes (L.relate parent child) w' :=
  h.run_write_becomes (h.stored.put_relate parent child)

/-- Storing acceptable parameters. -/
theorem run_setParams (h : w.Keeps L) {p : Params} (valid : p.validate = .ok ()) :
    ∃ w', w.run (Program.setParams p) = (.ok (), w') ∧ w.Becomes (L.setParams p) w' := by
  have hvalid : w.run (.ofExcept p.validate) = (.ok (), w) := by rw [run_ofExcept, valid]
  rw [Program.setParams, run_bind_of_ok hvalid]
  exact h.run_write_becomes (h.stored.put_params p)

/-- Only acceptable parameters are stored. -/
theorem of_run_setParams (h : w.Keeps L) {p : Params} {w' : World}
    (hrun : w.run (Program.setParams p) = (.ok (), w')) :
    p.validate = .ok () ∧ w'.Keeps (L.setParams p) := by
  rw [Program.setParams] at hrun
  obtain ⟨_, w₁, hvalid, hset⟩ := run_bind_eq_ok_iff.mp hrun
  rw [run_ofExcept] at hvalid
  obtain ⟨hok, rfl⟩ := Prod.mk.inj hvalid
  obtain ⟨w₂, hrun₂, hkeeps, -, -⟩ := h.run_write_becomes (h.stored.put_params p)
  obtain ⟨-, rfl⟩ := Prod.mk.inj (hset.symm.trans hrun₂)
  exact ⟨hok, hkeeps⟩

end Keeps

end World

end ReferralForest

import ReferralForest.Forest.Visit
import ReferralForest.Proofs.Cascade.Loading
import ReferralForest.Proofs.Cascade.Writes
import ReferralForest.Proofs.Forest.Listing
import ReferralForest.Proofs.Store.Families

/-!
# Visits

A visitor is shown all records as they were stored before the visit, and what it leaves of each is written
when the visit ends. In between, the status checks it asks for write to the queue, and each update reads
the record again, from the batch or from the store. None of this makes one stop of the visit depend on
another: a record is read as it was shown, since no earlier stop has put it, and a status check does what
it would do by itself on the store before the visit, since no stop writes to the parameters.

The listeners that are called in the end may write what they like. So the result is about the store as it
is when the records have been written, and the calls go on from there; if no listener writes, it is the
store that the visit leaves.

## Main definitions

* `Stop`, `Tour` — the stops of a visit, and the course of the visitor's state through them.
* `Stop.Becomes` — what a status check makes of the record of a stop, by itself.
* `Visited` — what a visit makes of a store.
* `Cascade.Awaits`, `Cascade.Revised` — what is yet to be shown and what has been done, in its course.

## Main statements

* `Cascade.run_visit_eq_ok` — the course of a visit, a stop at a time.
* `Forest.visit_writes_back` — a visit that succeeds writes back what the visitor leaves, and nothing else.
-/

namespace ReferralForest

/-! ### Reading and writing all records -/

/-- An entry of the record family is the record of an account. -/
theorem Program.readRecordEntry_eq_ok_iff {k : Key} {v : Value} {a : AccountId} {r : Record} :
    readRecordEntry (k, v) = .ok (a, r) ↔ (Slot.record a).key = k ∧ Record.decode v = .ok r := by
  rw [← Slot.parseRecord_eq_ok_iff, readRecordEntry]
  cases Slot.parseRecord k with
  | error e => simp [bind, Except.bind]
  | ok b => cases Record.decode v <;> simp [bind, Except.bind, pure, Except.pure]

/-- **All records**, if they are read, are those stored, in account order. -/
theorem World.run_allRecords_eq_ok {w w' : World} {l : List (AccountId × Record)}
    (ran : w.run Program.allRecords = (.ok l, w')) :
    w'.store.view = w.store.view ∧ (l.map Prod.fst).Pairwise AccountId.Before ∧
      (∀ e ∈ l, ∃ bytes, w.store.view.get? (Slot.record e.1).key = some bytes ∧
        Record.decode bytes = .ok e.2) ∧
      ∀ a, w.store.view.get? (Slot.record a).key ≠ none → ∃ r, (a, r) ∈ l := by
  obtain ⟨entries, w₁, hrange, hread⟩ := run_bind_eq_ok_iff.mp ran
  obtain ⟨hentries, -, hview⟩ := run_range_eq_ok hrange
  rw [run_ofExcept] at hread
  obtain ⟨hl, rfl⟩ := Prod.mk.inj hread
  have hmap := map_eq_of_mapM_eq_ok hl
  have hmem : ∀ k v, (k, v) ∈ entries ↔
      Slot.allRecords.contains k = true ∧ w.store.view.get? k = some v := by
    intro k v
    rw [hentries, SortedMap.mem_toList_iff, SortedMap.get?_filter_key]
    split <;> simp_all
  refine ⟨hview, ?_, fun e he => ?_, fun a ha => ?_⟩
  · let InOrder (x y : Except Error (AccountId × Record)) : Prop :=
      ∀ p q, x = .ok p → y = .ok q → p.1.Before q.1
    have hentrieswise : (entries.map Program.readRecordEntry).Pairwise InOrder := by
      rw [hentries, List.pairwise_map]
      refine (SortedMap.sorted _).imp fun {x y} hxy p q hp hq => ?_
      rw [← (Program.readRecordEntry_eq_ok_iff.mp hp).1, ← (Program.readRecordEntry_eq_ok_iff.mp hq).1,
        Slot.compare_key_record] at hxy
      exact hxy
    rw [hmap, List.pairwise_map] at hentrieswise
    exact List.pairwise_map.mpr (hentrieswise.imp fun hpq => hpq _ _ rfl rfl)
  · have hok : .ok e ∈ entries.map Program.readRecordEntry := hmap ▸ List.mem_map_of_mem he
    obtain ⟨⟨k, v⟩, hentry, hread⟩ := List.mem_map.mp hok
    obtain ⟨rfl, hdecode⟩ := Program.readRecordEntry_eq_ok_iff.mp hread
    exact ⟨v, ((hmem _ v).mp hentry).2, hdecode⟩
  · obtain ⟨bytes, hbytes⟩ := Option.ne_none_iff_exists'.mp ha
    have hentry := (hmem _ bytes).mpr ⟨Slot.allRecords_contains_key_iff.mpr ⟨a, rfl⟩, hbytes⟩
    have hok := List.mem_map_of_mem (f := Program.readRecordEntry) hentry
    rw [hmap] at hok
    obtain ⟨⟨b, r⟩, he, hread⟩ := List.mem_map.mp hok
    obtain rfl : b = a := Slot.record.inj
      (Slot.key_injective (Program.readRecordEntry_eq_ok_iff.mp hread.symm).1)
    exact ⟨r, he⟩

/-- **Writing records one by one**, if it succeeds, changes the view as it changes a map. -/
theorem World.run_writeAll_eq_ok {w w' : World} {l : List (AccountId × Record)}
    (ran : w.run (Cascade.writeAll l) = (.ok (), w')) :
    w'.store.view =
      l.foldl (fun m e => m.insert (Slot.record e.1).key e.2.encode) w.store.view := by
  induction l generalizing w with
  | nil => rw [(Prod.mk.inj ran).2]; rfl
  | cons e rest ih =>
      obtain ⟨_, w₁, hset, hrest⟩ := run_bind_eq_ok_iff.mp ran
      rw [ih hrest, (run_write_eq_ok hset).2]
      rfl

/-- **A cascade that is carried out**, if that succeeds: what it has put is written over what it has left in
the store, and nothing is left to do but to announce its events, whoever listens. -/
theorem Cascade.run_commit_eq_ok {α : Type} {c : Cascade α} {host : Host} {w w' : World} {x : α}
    (ran : w.run (c.commit host) = (.ok x, w')) :
    ∃ w₁ w₂ : World, World.run { w with batch := .empty } c.buffered = (.ok x, w₁) ∧
      Written w₁.batch.records w₁.store.view w₂.store.view ∧
      ∀ anyone : Host, w.run (c.commit anyone) =
        w₂.run (announceAll anyone w₁.batch.callbacks.toList >>= fun _ => pure x) := by
  rw [commit, World.run_bind_of_ok (w.run_keep .empty)] at ran
  obtain ⟨y, w₁, hbuffered, hend⟩ := World.run_bind_eq_ok_iff.mp ran
  obtain ⟨_, w₃, hflush, hx⟩ := World.run_bind_eq_ok_iff.mp hend
  obtain rfl : y = x := Except.ok.inj (Prod.mk.inj hx).1
  rw [flush, World.run_bind_of_ok w₁.run_batch, World.run_bind_of_ok (w₁.run_keep .empty)] at hflush
  obtain ⟨_, w₂, hwrite, -⟩ := World.run_bind_eq_ok_iff.mp hflush
  refine ⟨w₁, w₂, hbuffered, World.run_writeAll_eq_ok hwrite ▸ .of_toList _ _, fun anyone => ?_⟩
  have hcalls : w₁.run (flush anyone) = w₂.run (announceAll anyone w₁.batch.callbacks.toList) := by
    rw [flush, World.run_bind_of_ok w₁.run_batch, World.run_bind_of_ok (w₁.run_keep .empty),
      World.run_bind_of_ok hwrite]
  rw [commit, World.run_bind_of_ok (w.run_keep .empty), World.run_bind_of_ok hbuffered]
  exact World.run_bind_congr hcalls _

/-! ### Stops -/

/-- **A stop of a visit**: the record shown for an account, and what the visitor leaves of it. -/
structure Stop where
  /-- The account. -/
  account : AccountId
  /-- The record shown. -/
  shown : Record
  /-- What the visitor leaves. -/
  left : Visit

namespace Stop

/-- Whether the record is written at all. -/
def noted (stop : Stop) : Bool := stop.left.changed || stop.left.settle

/-- The record that is written, or settled first: the visitor's if it counts as changed, or else the one
shown, whatever the visitor has done to it. -/
def base (stop : Stop) : Record := if stop.left.changed then stop.left.record else stop.shown

/-- The time of the status check, if one is asked for. -/
def checkAt (now : Timestamp) (stop : Stop) : Option Timestamp := if stop.left.settle then some now else none

/-- The write to the queue that goes with the record a stop ends with. -/
def rescheduling (stop : Stop) (r : Record) : List Store.Write := stop.base.rescheduling stop.account r

/-- **What a status check makes of the record of a stop**, if one is asked for: the record that it ends
with by itself, on a plain store with these entries, where it makes the write to the queue that goes with
the record. -/
def Becomes (now : Timestamp) (entries : SortedMap Key Value) (stop : Stop) (r : Record) : Prop :=
  ∃ v : World, (World.ofStore (.ofEntries entries)).run
      (Cascade.check (stop.checkAt now) stop.account stop.base).buffered = (.ok r, v) ∧
    v.store = .ofEntries ((stop.rescheduling r).foldl Store.put entries)

variable {now : Timestamp} {entries : SortedMap Key Value} {stop : Stop} {r : Record}

/-- Without a status check the record is written as it is. -/
theorem becomes_iff_of_not_settle (h : stop.left.settle = false) :
    stop.Becomes now entries r ↔ r = stop.base := by
  have hcheck : Cascade.check (stop.checkAt now) stop.account stop.base = pure stop.base := by
    rw [checkAt, if_neg (Bool.eq_false_iff.mp h)]
    rfl
  rw [Becomes, hcheck]
  constructor
  · rintro ⟨v, hrun, -⟩
    exact (Except.ok.inj (Prod.mk.inj hrun).1).symm
  · rintro rfl
    rw [rescheduling, Record.rescheduling_of_eq rfl]
    exact ⟨_, rfl, rfl⟩

/-- The write to the queue that goes with the record of a stop, if there is one, concerns an entry of the
account, and a status check was asked for. -/
theorem Becomes.exists_of_mem_rescheduling (h : stop.Becomes now entries r) {e : Store.Write}
    (he : e ∈ stop.rescheduling r) :
    stop.left.settle = true ∧ ∃ t, e.1 = (Slot.downgrade t stop.account).key := by
  refine ⟨?_, Record.exists_of_mem_rescheduling he⟩
  by_contra hnot
  obtain rfl := (becomes_iff_of_not_settle (Bool.eq_false_iff.mpr hnot)).mp h
  rw [rescheduling, Record.rescheduling_of_eq rfl] at he
  exact List.not_mem_nil he

end Stop

/-- **The course of a visitor** through the stops of a visit: at each it gets the state it has left at the
one before. -/
inductive Tour {σ : Type} (visitor : σ → AccountId → Record → σ × Visit) : σ → List Stop → σ → Prop
  /-- There is nothing more to show. -/
  | done (s : σ) : Tour visitor s [] s
  /-- The visitor is shown a record, and goes on. -/
  | stop {s s₁ s' : σ} {a : AccountId} {r : Record} {left : Visit} {rest : List Stop}
      (shown : visitor s a r = (s₁, left)) (goes : Tour visitor s₁ rest s') :
      Tour visitor s (⟨a, r, left⟩ :: rest) s'

/-- **What a visit makes of a store.** All records were shown, in account order and as they were stored.
The record of an account is as it was if the visitor notes nothing. Otherwise it is the one the visitor has
left, or the one shown if it does not count as changed, after the status check that was asked for; and the
queue entries of the account are as this check leaves them. All else is as it was. -/
structure Visited (now : Timestamp) (stops : List Stop) (before after : SortedMap Key Value) : Prop where
  /-- The accounts come in their order, and each once. -/
  inOrder : (stops.map Stop.account).Pairwise AccountId.Before
  /-- The records shown are those stored before. -/
  asStored : ∀ stop ∈ stops, ∃ bytes, before.get? (Slot.record stop.account).key = some bytes ∧
    Record.decode bytes = .ok stop.shown
  /-- No record is left out. -/
  all : ∀ a, before.get? (Slot.record a).key ≠ none → ∃ stop ∈ stops, stop.account = a
  /-- Where nothing is noted, nothing is written. -/
  untouched : ∀ stop ∈ stops, stop.noted = false →
    after.get? (Slot.record stop.account).key = before.get? (Slot.record stop.account).key
  /-- Where something is noted, the record is written, and settled if that was asked for. -/
  written : ∀ stop ∈ stops, stop.noted = true → ∃ r, stop.Becomes now before r ∧
    after.get? (Slot.record stop.account).key = some r.encode ∧
    ∀ t, after.get? (Slot.downgrade t stop.account).key =
      ((stop.rescheduling r).foldl Store.put before).get? (Slot.downgrade t stop.account).key
  /-- Only these records change, and queue entries of the accounts that were to be settled. -/
  other : ∀ k, (∀ stop ∈ stops, stop.noted = true → k ≠ (Slot.record stop.account).key) →
    (∀ stop ∈ stops, stop.left.settle = true → ∀ t, k ≠ (Slot.downgrade t stop.account).key) →
    after.get? k = before.get? k

namespace Cascade

variable {σ : Type} {now : Timestamp} {visitor : σ → AccountId → Record → σ × Visit} {s s' : σ}
  {w w₁ w' : World} {a : AccountId} {r r' : Record} {before : SortedMap Key Value}

/-! ### One stop -/

/-- **An update of a stored record** that nobody has put yet: the changed record is checked as it would be
anywhere, and put. What is stored is whole, so it is not padded any further. -/
theorem run_update_stored {checkAt : Option Timestamp} {f : Record → Record} {x : Option Unit}
    {bytes : Value} (fresh : w.batch.records.get? a = none)
    (stored : w.store.view.get? (Slot.record a).key = some bytes) (decoded : Record.decode bytes = .ok r)
    (ran : w.run (update checkAt a fun stored => pure ((), f stored)).buffered = (.ok x, w')) :
    ∃ r', Writes (w.store.view.get? Slot.params.key) (check checkAt a (f r)) r'
        ((f r).rescheduling a r') ∧
      w'.batch.records = w.batch.records.insert a r' ∧
      w'.store.view = ((f r).rescheduling a r').foldl Store.put w.store.view := by
  obtain ⟨loaded, w₁, hload, hrest⟩ := run_update_eq_ok ran
  obtain ⟨rfl, hbatch, hview⟩ := run_load_eq_ok fresh stored decoded hload
  obtain ⟨y, r₁, w₂, r', w₃, hchange, hcheck, hput, -⟩ := hrest
  obtain ⟨hr₁, rfl⟩ := Prod.mk.inj hchange
  obtain rfl : f r.normalize = r₁ := congrArg Prod.snd (Except.ok.inj hr₁)
  rw [Record.normalize_of_length (Record.whole_of_decode decoded).padded] at hcheck
  have hwrites := writes_check hcheck
  obtain ⟨-, hrecords, hview'⟩ := hwrites.admitted rfl hcheck
  rw [run_buffered_put] at hput
  obtain ⟨-, rfl⟩ := Prod.mk.inj hput
  refine ⟨r', hview ▸ hwrites, ?_, ?_⟩
  · rw [hrecords, hbatch]
  · rw [hview', hview]

/-! ### The course of a visit -/

/-- **What a visit has done** when it has come through some stops, between two worlds: of each stop that
notes something the record has been put, and the write to the queue that goes with it has been made. -/
structure Revised (now : Timestamp) (before : SortedMap Key Value) (stops : List Stop)
    (outcomes : List (Stop × Record)) (w w' : World) : Prop where
  /-- The outcomes are those of the stops that note something. -/
  noted : outcomes.map Prod.fst = stops.filter Stop.noted
  /-- Each record is what the status check makes of it. -/
  becomes : ∀ o ∈ outcomes, o.1.Becomes now before o.2
  /-- The records have been put. -/
  records : w'.batch.records =
    (outcomes.map fun o => (o.1.account, o.2)).foldl (fun m e => m.insert e.1 e.2) w.batch.records
  /-- The queue has been written. -/
  view : w'.store.view =
    (outcomes.flatMap fun o => o.1.rescheduling o.2).foldl Store.put w.store.view

/-- Without stops nothing has been done. -/
theorem revised_nil (w : World) : Revised now before [] [] w w where
  noted := by rw [List.map_nil, List.filter_nil]
  becomes _ ho := absurd ho List.not_mem_nil
  records := by rw [List.map_nil, List.foldl_nil]
  view := by rw [List.flatMap_nil, List.foldl_nil]

/-- A stop at which nothing is noted. -/
theorem Revised.pass {stop : Stop} {stops : List Stop} {outcomes : List (Stop × Record)}
    (h : Revised now before stops outcomes w w') (silent : stop.noted = false) :
    Revised now before (stop :: stops) outcomes w w' where
  noted := by rw [List.filter_cons_of_neg (Bool.eq_false_iff.mp silent), h.noted]
  becomes := h.becomes
  records := h.records
  view := h.view

/-- A stop at which something is noted. -/
theorem Revised.cons {stop : Stop} {stops : List Stop} {outcomes : List (Stop × Record)}
    (h : Revised now before stops outcomes w₁ w') (noted : stop.noted = true)
    (becomes : stop.Becomes now before r)
    (records : w₁.batch.records = w.batch.records.insert stop.account r)
    (view : w₁.store.view = (stop.rescheduling r).foldl Store.put w.store.view) :
    Revised now before (stop :: stops) ((stop, r) :: outcomes) w w' where
  noted := by rw [List.filter_cons_of_pos noted, List.map_cons, h.noted]
  becomes := List.forall_mem_cons.mpr ⟨becomes, h.becomes⟩
  records := by rw [h.records, records]; rfl
  view := by rw [h.view, view, List.flatMap_cons, List.foldl_append]

/-- **Records that are yet to be shown**, as a world finds them in the course of a visit: each is stored as
it was given, nobody has put it, and the parameters are those from before the visit. -/
structure Awaits (before : SortedMap Key Value) (records : List (AccountId × Record)) (w : World) :
    Prop where
  /-- The parameters are those from before. -/
  params : w.store.view.get? Slot.params.key = before.get? Slot.params.key
  /-- No account comes twice. -/
  distinct : (records.map Prod.fst).Nodup
  /-- None of the records has been put. -/
  fresh : ∀ e ∈ records, w.batch.records.get? e.1 = none
  /-- All of them are stored. -/
  stored : ∀ e ∈ records, ∃ bytes, w.store.view.get? (Slot.record e.1).key = some bytes ∧
    Record.decode bytes = .ok e.2

namespace Awaits

variable {rest : List (AccountId × Record)}

/-- A stop that notes nothing leaves the rest to come. -/
theorem pass (h : Awaits before ((a, r) :: rest) w) : Awaits before rest w where
  params := h.params
  distinct := (List.nodup_cons.mp h.distinct).2
  fresh e he := h.fresh e (List.mem_cons_of_mem _ he)
  stored e he := h.stored e (List.mem_cons_of_mem _ he)

/-- **A record that is put disturbs none of the rest**: they are records of other accounts, and what its
status check writes into the queue is neither a record nor the parameters. -/
theorem put {changed : Record} (h : Awaits before ((a, r) :: rest) w)
    (records : w₁.batch.records = w.batch.records.insert a r')
    (view : w₁.store.view = (changed.rescheduling a r').foldl Store.put w.store.view) :
    Awaits before rest w₁ := by
  have hslot : ∀ slot : Slot, (∀ t, slot ≠ .downgrade t a) →
      w₁.store.view.get? slot.key = w.store.view.get? slot.key := by
    intro slot hother
    rw [view, Record.get?_foldl_rescheduling hother]
  refine ⟨(hslot .params nofun).trans h.params, h.pass.distinct, fun e he => ?_, fun e he => ?_⟩
  · have hnew := (List.nodup_cons.mp h.distinct).1
    have hother : e.1 ≠ a := fun heq => hnew (heq ▸ List.mem_map.mpr ⟨e, he, rfl⟩)
    rw [records, SortedMap.get?_insert_of_ne _ _ hother]
    exact h.pass.fresh e he
  · rw [hslot (.record e.1) nofun]
    exact h.pass.stored e he

end Awaits

/-- **The course of a visit.** Each record is shown as it was given, whatever has been done at the stops
before, and each stop that notes something leaves what it would leave by itself. -/
theorem run_visit_eq_ok {records : List (AccountId × Record)}
    (ran : w.run (visit now visitor s records).buffered = (.ok s', w'))
    (awaits : Awaits before records w) :
    ∃ stops outcomes, Tour visitor s stops s' ∧
      stops.map (fun stop => (stop.account, stop.shown)) = records ∧
      Revised now before stops outcomes w w' := by
  induction records generalizing s w with
  | nil =>
      obtain ⟨hs, rfl⟩ := Prod.mk.inj ran
      obtain rfl := Except.ok.inj hs
      exact ⟨[], [], .done _, rfl, revised_nil _⟩
  | cons e rest ih =>
      obtain ⟨a, r⟩ := e
      cases hshown : visitor s a r with
      | mk s₁ left =>
          let stop : Stop := ⟨a, r, left⟩
          rw [visit, hshown] at ran
          dsimp only at ran
          split at ran
          next hnoted =>
              obtain ⟨bytes, hbytes, hdecode⟩ := awaits.stored _ List.mem_cons_self
              rw [buffered_bind] at ran
              obtain ⟨x, w₁, hupdate, hrest⟩ := World.run_bind_eq_ok_iff.mp ran
              obtain ⟨r', hwrites, hrecords, hview⟩ :=
                run_update_stored (awaits.fresh _ List.mem_cons_self) hbytes hdecode hupdate
              have hbecomes : stop.Becomes now before r' :=
                hwrites.free (w := World.ofStore (.ofEntries before)) rfl awaits.params.symm
              obtain ⟨stops, outcomes, htour, hstops, hrevised⟩ := ih hrest (awaits.put hrecords hview)
              exact ⟨stop :: stops, (stop, r') :: outcomes, .stop hshown htour, by rw [List.map_cons, hstops],
                hrevised.cons hnoted hbecomes hrecords hview⟩
          next hsilent =>
              obtain ⟨stops, outcomes, htour, hstops, hrevised⟩ := ih ran awaits.pass
              exact ⟨stop :: stops, outcomes, .stop hshown htour, by rw [List.map_cons, hstops],
                hrevised.pass (Bool.eq_false_iff.mpr hsilent)⟩

/-! ### The end of a visit -/

namespace Revised

variable {stops : List Stop} {outcomes : List (Stop × Record)}

/-- The outcomes are those of some of the stops. -/
theorem mem_stops (h : Revised now before stops outcomes w w') {o : Stop × Record} (ho : o ∈ outcomes) :
    o.1 ∈ stops ∧ o.1.noted = true :=
  List.mem_filter.mp (h.noted ▸ List.mem_map_of_mem ho)

/-- Every stop that notes something has an outcome. -/
theorem exists_mem (h : Revised now before stops outcomes w w') {stop : Stop} (hstop : stop ∈ stops)
    (noted : stop.noted = true) : ∃ r, (stop, r) ∈ outcomes := by
  have hmem : stop ∈ outcomes.map Prod.fst := h.noted ▸ List.mem_filter.mpr ⟨hstop, noted⟩
  obtain ⟨⟨_, r⟩, ho, rfl⟩ := List.mem_map.mp hmem
  exact ⟨r, ho⟩

/-- No account has two outcomes. -/
theorem nodup_accounts (h : Revised now before stops outcomes w w')
    (distinct : (stops.map Stop.account).Nodup) : (outcomes.map fun o => o.1.account).Nodup := by
  have hmap : outcomes.map (fun o => o.1.account) = (stops.filter Stop.noted).map Stop.account := by
    rw [← h.noted, List.map_map]
    rfl
  rw [hmap]
  exact distinct.sublist (List.filter_sublist.map _)

/-- The records that have been put are those of the outcomes. -/
theorem get?_records (h : Revised now before stops outcomes w w')
    (distinct : (stops.map Stop.account).Nodup) (empty : w.batch.records = .empty) :
    (∀ o ∈ outcomes, w'.batch.records.get? o.1.account = some o.2) ∧
      ∀ a r, w'.batch.records.get? a = some r → ∃ o ∈ outcomes, o.1.account = a := by
  have hkeys : (outcomes.map fun o => (o.1.account, o.2)).map Prod.fst =
      outcomes.map fun o => o.1.account := List.map_map
  rw [h.records, empty]
  refine ⟨fun o ho => ?_, fun a r hr => ?_⟩
  · exact SortedMap.get?_foldl_insert_of_mem (hkeys ▸ h.nodup_accounts distinct)
      (List.mem_map.mpr ⟨o, ho, rfl⟩)
  · by_contra hnone
    rw [SortedMap.get?_foldl_insert_of_not_mem (hkeys ▸ fun hmem => hnone (List.mem_map.mp hmem)),
      SortedMap.get?_empty] at hr
    contradiction

/-- What is not a queue entry of an account that was to be settled is as it was. -/
theorem get?_view_of_ne (h : Revised now before stops outcomes w w') {k : Key}
    (hk : ∀ stop ∈ stops, stop.left.settle = true → ∀ t, k ≠ (Slot.downgrade t stop.account).key) :
    w'.store.view.get? k = w.store.view.get? k := by
  rw [h.view, Store.get?_foldl_put_of_ne]
  intro e he
  obtain ⟨o, ho, he⟩ := List.mem_flatMap.mp he
  obtain ⟨hsettle, t, ht⟩ := (h.becomes o ho).exists_of_mem_rescheduling he
  exact ht ▸ hk o.1 (h.mem_stops ho).1 hsettle t

/-- The queue entries of an account are as its own stop leaves them: no other stop is about this account. -/
theorem get?_view_downgrade (h : Revised now before stops outcomes w w')
    (distinct : (stops.map Stop.account).Nodup) {o : Stop × Record} (ho : o ∈ outcomes)
    (t : Timestamp) :
    w'.store.view.get? (Slot.downgrade t o.1.account).key =
      ((o.1.rescheduling o.2).foldl Store.put w.store.view).get? (Slot.downgrade t o.1.account).key := by
  obtain ⟨earlier, later, rfl⟩ := List.append_of_mem ho
  have hapart : ∀ o' ∈ earlier ++ later, o'.1.account ≠ o.1.account := by
    have hnodup := h.nodup_accounts distinct
    rw [List.map_append, List.map_cons, List.nodup_middle, List.nodup_cons, ← List.map_append] at hnodup
    exact fun o' ho' heq => hnodup.1 (List.mem_map.mpr ⟨o', ho', heq⟩)
  have hfar : ∀ os : List (Stop × Record), (∀ o' ∈ os, o' ∈ earlier ++ later) →
      ∀ e ∈ os.flatMap fun o' => o'.1.rescheduling o'.2, (Slot.downgrade t o.1.account).key ≠ e.1 := by
    intro os hos e he heq
    obtain ⟨o', ho', he⟩ := List.mem_flatMap.mp he
    obtain ⟨t', ht'⟩ := Record.exists_of_mem_rescheduling he
    exact hapart o' (hos o' ho') (Slot.downgrade.inj (Slot.key_injective (ht'.symm.trans heq.symm))).2
  rw [h.view, List.flatMap_append, List.flatMap_cons, List.foldl_append, List.foldl_append,
    Store.get?_foldl_put_of_ne (hfar later fun _ => List.mem_append_right _)]
  exact Store.get?_foldl_put_congr _
    (Store.get?_foldl_put_of_ne (hfar earlier fun _ => List.mem_append_left _))

/-- **Writing the records that have been put** ends the visit. -/
theorem visited {after : SortedMap Key Value} (h : Revised now w.store.view stops outcomes w w')
    (empty : w.batch.records = .empty)
    (inOrder : (stops.map Stop.account).Pairwise AccountId.Before)
    (asStored : ∀ stop ∈ stops, ∃ bytes,
      w.store.view.get? (Slot.record stop.account).key = some bytes ∧
        Record.decode bytes = .ok stop.shown)
    (all : ∀ a, w.store.view.get? (Slot.record a).key ≠ none → ∃ stop ∈ stops, stop.account = a)
    (written : Written w'.batch.records w'.store.view after) :
    Visited now stops w.store.view after := by
  have distinct := AccountId.nodup_of_before inOrder
  obtain ⟨hput, honly⟩ := h.get?_records distinct empty
  have hother : ∀ k, (∀ stop ∈ stops, stop.noted = true → k ≠ (Slot.record stop.account).key) →
      (∀ stop ∈ stops, stop.left.settle = true → ∀ t, k ≠ (Slot.downgrade t stop.account).key) →
      after.get? k = w.store.view.get? k := by
    intro k hrecord hqueue
    rw [written.other k fun a r hr => ?_, h.get?_view_of_ne hqueue]
    obtain ⟨o, ho, rfl⟩ := honly a r hr
    obtain ⟨hstop, hnoted⟩ := h.mem_stops ho
    exact hrecord o.1 hstop hnoted
  refine ⟨inOrder, asStored, all, fun stop hstop hsilent => ?_, fun stop hstop hnoted => ?_, hother⟩
  · refine hother (Slot.record stop.account).key (fun other hmem hnoted hkey => ?_)
      fun _ _ _ _ hkey => nomatch Slot.key_injective hkey
    have haccount := Slot.record.inj (Slot.key_injective hkey)
    obtain rfl := List.inj_on_of_nodup_map distinct hstop hmem haccount
    rw [hsilent] at hnoted
    contradiction
  · obtain ⟨r, ho⟩ := h.exists_mem hstop hnoted
    refine ⟨r, h.becomes _ ho, written.record _ _ (hput _ ho), fun t => ?_⟩
    have hkey : ∀ a, (Slot.downgrade t stop.account).key ≠ (Slot.record a).key := fun a heq =>
      nomatch Slot.key_injective heq
    exact (written.get?_of_ne hkey).trans (h.get?_view_downgrade distinct ho t)

end Revised

end Cascade

/-! ### Visits -/

namespace Forest

variable {σ : Type} {host : Host} {now : Timestamp} {visitor : σ → AccountId → Record → σ × Visit}
  {s s' : σ} {w w' : World}

/-- **A visit writes back what the visitor leaves**, on whatever store and whatever its state. If it
succeeds, the visitor has been shown all records, in account order and as they were stored before, each
once. The store is then as the stops of the visit leave it, each by itself, and nothing is left to do but
to call the listeners, whoever listens; if they write nothing, the visit leaves this store. -/
theorem visit_writes_back (ran : w.run (visit host now visitor s) = (.ok s', w')) :
    ∃ stops, Tour visitor s stops s' ∧
      ∃ (w₁ : World) (callbacks : List (Callback × Unit)),
        Visited now stops w.store.view w₁.store.view ∧
        (∀ anyone : Host, w.run (visit anyone now visitor s) =
          w₁.run (Cascade.announceAll anyone callbacks >>= fun _ => pure s')) ∧
        (host.Quiet → w'.store.view = w₁.store.view) := by
  obtain ⟨records, w₀, hread, hcommit⟩ := World.run_bind_eq_ok_iff.mp ran
  obtain ⟨hview, hsorted, hstored, hall⟩ := World.run_allRecords_eq_ok hread
  obtain ⟨w₂, w₁, hbuffered, hwritten, hcalls⟩ := Cascade.run_commit_eq_ok hcommit
  rw [← hview] at hstored hall ⊢
  obtain ⟨stops, outcomes, htour, rfl, hrevised⟩ := Cascade.run_visit_eq_ok hbuffered
    ⟨rfl, AccountId.nodup_of_before hsorted, fun _ _ => rfl, hstored⟩
  have hruns : ∀ anyone : Host, w.run (visit anyone now visitor s) =
      w₁.run (Cascade.announceAll anyone w₂.batch.callbacks.toList >>= fun _ => pure s') :=
    fun anyone => (World.run_bind_of_ok hread _).trans (hcalls anyone)
  refine ⟨stops, htour, w₁, _, ?_, hruns, fun quiet => ?_⟩
  · refine hrevised.visited rfl ?_ (fun stop hstop => ?_) (fun a ha => ?_) hwritten
    · rwa [List.map_map] at hsorted
    · exact hstored _ (List.mem_map_of_mem hstop)
    · obtain ⟨r, hr⟩ := hall a ha
      obtain ⟨stop, hstop, heq⟩ := List.mem_map.mp hr
      exact ⟨stop, hstop, congrArg Prod.fst heq⟩
  · have hsilent : Program.Silent
        (Cascade.announceAll host w₂.batch.callbacks.toList >>= fun _ => pure s') :=
      Dialogue.Only.bind (quiet.silent_announceAll _) fun _ => trivial
    have hkept := World.view_run_of_silent (w := w₁) hsilent
    rwa [← hruns host, ran] at hkept

end Forest

/-! ### A small visit -/

namespace SmallVisit

/-- A store with two records, one of them of a tier that it does not deserve. -/
def store : Store :=
  .ofEntries (.ofList [((Slot.record SmallHistory.leaf).key, (Record.fresh none .starter).encode),
    ((Slot.record SmallHistory.root).key, (Record.fresh none .new).encode)])

/-- A visitor that counts the records it is shown and makes all of them active. The first one is to be
settled, but does not count as changed; the others do. -/
def visitor (seen : Nat) (_ : AccountId) (r : Record) : Nat × Visit :=
  (seen + 1, ⟨{ r with active := true }, seen != 0, seen == 0⟩)

/-- The world after the visit. -/
def visited : World := ((World.ofStore store).run (Forest.visit Host.standalone ⟨10⟩ visitor 0)).2

-- Only the second record has become active, and only the first one waits for its downgrade.
example : [SmallHistory.leaf, SmallHistory.root].map (fun a => (visited.run (Program.record a)).1.toOption.map
    fun r => (r.active, r.downgradeAt.isSome)) = [some (false, true), some (true, false)] := by
  decide +kernel

end SmallVisit

namespace Forest

open SmallVisit in
/-- The visitor is shown two records. -/
theorem visit_writes_back_two :
    (World.ofStore store).run (visit Host.standalone ⟨10⟩ visitor 0) = (.ok 2, visited) ∧
    ∃ stops, Tour visitor 0 stops 2 ∧
      ∃ (w₁ : World) (callbacks : List (Callback × Unit)),
        Visited ⟨10⟩ stops store.view w₁.store.view ∧
        (∀ anyone : Host, (World.ofStore store).run (visit anyone ⟨10⟩ visitor 0) =
          w₁.run (Cascade.announceAll anyone callbacks >>= fun _ => pure 2)) ∧
        (Host.standalone.Quiet → visited.store.view = w₁.store.view) := by
  have ran : (World.ofStore store).run (visit Host.standalone ⟨10⟩ visitor 0) = (.ok 2, visited) :=
    Prod.ext (by decide +kernel) (by rw [visited])
  exact ⟨ran, visit_writes_back ran⟩

end Forest

end ReferralForest

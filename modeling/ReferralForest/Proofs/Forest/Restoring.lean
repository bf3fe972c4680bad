import ReferralForest.Proofs.Forest.Rebuilding

/-!
# Restoring a Forest

The document an export writes out says of every account where it is, which tier it holds and when it is
to lose it, and it says it once. So it can be read into an empty store, and what is kept there then is
the outline of the forest: the same records but for the stakes and all that comes of them, the same
relations, the same queue and the same parameters. And as the walk of an export looks at nothing else,
it writes the same document again, in the same order.

Reading a document in announces nothing, so it makes no difference whether listeners would fail.

## Main definitions

* `Layout.map` — a layout with other records.
* `Genesis.addresses` — the accounts that a document brings in.
* `Store.RoundTrips` — a store whose document restores its outline.

## Main statements

* `Layout.genesis_map` — documents say nothing about stakes.
* `World.Keeps.exportGenesis_outline` — a forest and its outline are written out alike.
* `Forest.roundTrips_after` — every store with a history is restored.
-/

namespace ReferralForest

open Roster

/-! ### Outlines -/

namespace Layout

variable {referrals referrals' : AccountId → List (AccountId × Record)} {f : Record → Record}

/-- **A layout with other records** for the same accounts. -/
def map (f : Record → Record) (o : Layout) : Layout :=
  ⟨o.roots.map (Prod.map id f), o.groups.map (Prod.map id (List.map (Prod.map id f)))⟩

/-- The level below a level with other records. -/
theorem below_map (same : ∀ a, referrals' a = (referrals a).map (Prod.map id f))
    (level : List (AccountId × Record)) :
    below referrals' (level.map (Prod.map id f)) = (below referrals level).map (Prod.map id f) := by
  rw [below, below, List.flatMap_map, List.map_flatMap]
  exact List.flatMap_congr fun e _ => same e.1

/-- The groups of a level with other records. -/
theorem groupsOf_map (same : ∀ a, referrals' a = (referrals a).map (Prod.map id f))
    (level : List (AccountId × Record)) :
    groupsOf referrals' (level.map (Prod.map id f)) =
      (groupsOf referrals level).map (Prod.map id (List.map (Prod.map id f))) := by
  induction level with
  | nil => rfl
  | cons e rest ih =>
      rw [List.map_cons, groupsOf_cons, groupsOf_cons, ih]
      simp only [Prod.map_fst, id_eq, same, List.isEmpty_map]
      split <;> rfl

/-- The groups of levels with other records. -/
theorem groupsFrom_map (same : ∀ a, referrals' a = (referrals a).map (Prod.map id f)) (n : Nat)
    (level : List (AccountId × Record)) :
    groupsFrom referrals' n (level.map (Prod.map id f)) =
      (groupsFrom referrals n level).map (Prod.map id (List.map (Prod.map id f))) := by
  induction n generalizing level with
  | zero => rfl
  | succ n ih =>
      rw [groupsFrom, groupsFrom, groupsOf_map same, below_map same, ih, List.map_append]

/-- **Documents say nothing about stakes**, only about tiers and downgrades. -/
theorem genesis_map (status : ∀ r, (f r).status = r.status)
    (downgradeAt : ∀ r, (f r).downgradeAt = r.downgradeAt) (p : Params) (o : Layout) :
    (o.map f).genesis p = o.genesis p := by
  have hmember : Forest.memberOf ∘ Prod.map id f = Forest.memberOf :=
    funext fun e => congrArg (Member.mk e.1.text) (status e.2)
  have hpending : pendingOf ∘ Prod.map id f = pendingOf := by
    funext e
    rw [Function.comp_apply, pendingOf, pendingOf, Prod.map_snd, status, downgradeAt]
    rfl
  have hgroup : groupOf ∘ Prod.map id (List.map (Prod.map id f)) = groupOf := by
    funext g
    rw [Function.comp_apply, groupOf, groupOf, Prod.map_snd, List.map_map, hmember]
    rfl
  have hmembers : (o.map f).members = o.members.map (Prod.map id f) := by
    rw [members, members, map, List.map_append, List.flatMap_map, List.map_flatMap]
    rfl
  rw [genesis, genesis, hmembers, List.filterMap_map, hpending, map, List.map_map, List.map_map,
    hmember, hgroup]

end Layout

/-- A ledger and the outline of its records: what a document leaves of it. -/
structure Ledger.Outlines (L L' : Ledger) : Prop where
  /-- The records are outlines. -/
  records : ∀ a, L'.records.get? a = (L.records.get? a).map Record.outline
  /-- The relations are the same. -/
  relations : L'.relations = L.relations
  /-- The queue is the same. -/
  queue : L'.queue = L.queue

namespace Ledger.Outlines

variable {L L' : Ledger} {m m' : SortedMap Key Value}

/-- Records decide the queue and the relations, and what decides them is in the outline. -/
theorem of_records (records : ∀ a, L'.records.get? a = (L.records.get? a).map Record.outline)
    (inStep : L.InStep) (inStep' : L'.InStep) (related : L.Related) (related' : L'.Related) :
    L.Outlines L' := by
  refine ⟨records, ?_, ?_⟩
  · ext ⟨p, c⟩
    rw [related', related, parentOf, parentOf, records]
    cases L.records.get? c <;> rfl
  · ext ⟨t, a⟩
    rw [inStep', inStep, records]
    simp [Record.outline]

variable (h : L.Outlines L')
include h

/-- The records are listed in the same order. -/
theorem toList_records : L'.records.toList = L.records.toList.map (Prod.map id Record.outline) := by
  refine SortedMap.toList_eq_of_mem_iff (List.pairwise_map.mpr L.records.sorted) fun a r => ?_
  rw [h.records, List.mem_map, Option.map_eq_some_iff]
  constructor
  · rintro ⟨e, he, heq⟩
    obtain ⟨rfl, rfl⟩ := Prod.mk.inj heq
    exact ⟨e.2, SortedMap.mem_toList_iff.mp he, rfl⟩
  · rintro ⟨q, hq, rfl⟩
    exact ⟨(a, q), SortedMap.mem_toList_iff.mpr hq, rfl⟩

/-- Entries of records of the same accounts are outlines of one another. -/
theorem eq_map {l l' : List (AccountId × Record)} (same : l'.map Prod.fst = l.map Prod.fst)
    (listed : ∀ e ∈ l, L.records.get? e.1 = some e.2)
    (listed' : ∀ e ∈ l', L'.records.get? e.1 = some e.2) :
    l' = l.map (Prod.map id Record.outline) := by
  induction l generalizing l' with
  | nil => exact List.map_eq_nil_iff.mp same
  | cons e rest ih =>
      cases l' with
      | nil => contradiction
      | cons e' rest' =>
          obtain ⟨hfirst, hsame⟩ := List.cons.inj same
          have hrecord := listed' e' List.mem_cons_self
          rw [hfirst, h.records, listed e List.mem_cons_self, Option.map_some] at hrecord
          rw [List.map_cons, ← ih hsame (fun d hd => listed d (List.mem_cons_of_mem _ hd))
            fun d hd => listed' d (List.mem_cons_of_mem _ hd)]
          exact congrArg (· :: rest') (Prod.ext hfirst (Option.some.inj hrecord).symm)

/-- All keys but those of records and of the parameters have the same values. -/
theorem get?_eq (stored : L.StoredIn m) (stored' : L'.StoredIn m') {k : Key}
    (other : ∀ a, k ≠ (Slot.record a).key) (others : k ≠ Slot.params.key) : m'.get? k = m.get? k := by
  have hvalue : ∀ slot : Slot, slot.key = k → L'.value? slot = L.value? slot := by
    rintro slot rfl
    cases slot with
    | record a => exact absurd rfl (other a)
    | params => exact absurd rfl others
    | relation p c => classical exact if_congr (by rw [h.relations]) rfl rfl
    | downgrade t a => classical exact if_congr (by rw [h.queue]) rfl rfl
  refine Option.ext fun v => ?_
  rw [stored'.get?_eq_some_iff, stored.get?_eq_some_iff]
  exact exists_congr fun slot => and_congr_right fun hslot => by rw [hvalue slot hslot]

end Ledger.Outlines

/-! ### Exports -/

namespace World.Keeps

open Forest Layout

variable {w w' : World} {L L' : Ledger}

/-- Referrals are listed in the same order where the relations are the same. -/
theorem run_children_of_outlines (h : w.Keeps L) (h' : w'.Keeps L') (outlines : L.Outlines L')
    (p : AccountId) : (w'.run (children p)).1 = (w.run (children p)).1 := by
  have hfound :
      (w'.store.view.filter fun k _ => (KeyRange.beginningWith (Slot.childrenOf p)).contains k) =
        w.store.view.filter fun k _ => (KeyRange.beginningWith (Slot.childrenOf p)).contains k := by
    refine SortedMap.ext_get? fun k => ?_
    rw [SortedMap.get?_filter_key, SortedMap.get?_filter_key]
    split
    next hrange =>
        have hother : ∀ slot : Slot, (∀ c, slot ≠ .relation p c) → k ≠ slot.key := by
          rintro slot hslot rfl
          obtain ⟨c, hc⟩ := Slot.childrenOf_contains_key_iff.mp hrange
          exact hslot c hc
        exact outlines.get?_eq h.stored h'.stored (fun a => hother (.record a) (by simp))
          (hother .params (by simp))
    next => rfl
  rw [children, run_bind_of_ok (h.run_range _), run_bind_of_ok (h'.run_range _), hfound, run_ofExcept,
    run_ofExcept]

/-- **A forest and its outline are written out alike.** -/
theorem exportGenesis_outline (h : w.Keeps L) (h' : w'.Keeps L') (forest : IsForest L.records)
    (related : L.Related) (forest' : IsForest L'.records) (related' : L'.Related)
    (outlines : L.Outlines L') (params : L'.params.getD .default = L.params.getD .default) :
    (w'.run exportGenesis).1 = (w.run exportGenesis).1 := by
  obtain ⟨referrals, hlists, hlisted, hrun⟩ := h.exists_run_exportGenesis forest related
  obtain ⟨referrals', hlists', hlisted', hrun'⟩ := h'.exists_run_exportGenesis forest' related'
  have hreferrals : ∀ p, referrals' p = (referrals p).map (Prod.map id Record.outline) := by
    intro p
    have hsame := h.run_children_of_outlines h' outlines p
    rw [hlisted, hlisted', Except.ok.injEq] at hsame
    exact outlines.eq_map hsame (fun e he => ((hlists.mem_referrals p e).mp he).1)
      fun e he => ((hlists'.mem_referrals p e).mp he).1
  have hroots : L'.records.roots = L.records.roots.map (Prod.map id Record.outline) := by
    rw [Roster.roots, outlines.toList_records, List.filter_map]
    rfl
  have hsize : L'.records.size = L.records.size := by
    rw [SortedMap.size, SortedMap.size, outlines.toList_records, List.length_map]
  have hlayout : byLevels referrals' L'.records.size L'.records.roots =
      (byLevels referrals L.records.size L.records.roots).map Record.outline := by
    rw [byLevels, byLevels, hsize, hroots, groupsFrom_map hreferrals]
    rfl
  rw [hrun, hrun', hlayout, params, genesis_map (f := Record.outline) (fun _ => rfl) fun _ => rfl]

end World.Keeps

/-- The accounts that a document brings in: the roots, and the referrals of everybody. -/
def Genesis.addresses (g : Genesis) : List String :=
  (g.roots.getD []).map Member.address ++
    g.groups.flatMap fun group => group.referrals.map Member.address

/-- The document of a layout brings in its members. -/
theorem Layout.addresses_genesis (o : Layout) (p : Params) :
    (o.genesis p).addresses = o.members.map fun e => e.1.text := by
  rw [Genesis.addresses, genesis, members, List.map_append, List.flatMap_map, List.map_flatMap]
  simp only [Option.getD_some, List.map_map, groupOf, Function.comp_def]
  rfl

/-- **The document of a layout** that covers a forest brings in every account once, and no others. -/
theorem Layout.Covers.addresses_genesis {o : Layout} {m : Roster} (h : o.Covers m) (p : Params) :
    (o.genesis p).addresses.Nodup ∧ ∀ address, address ∈ (o.genesis p).addresses ↔
      ∃ a : AccountId, m.get? a ≠ none ∧ a.text = address := by
  have haddresses : (o.genesis p).addresses = (o.members.map Prod.fst).map AccountId.text := by
    rw [o.addresses_genesis, List.map_map]
    rfl
  rw [haddresses]
  refine ⟨h.nodup.map fun _ _ => AccountId.ext, fun address => ?_⟩
  rw [List.mem_map]
  refine exists_congr fun a => and_congr_left fun _ => ?_
  rw [← not_iff_not, ne_eq, not_not, h.consists.get?_eq_none_iff]

/-! ### Stores -/

/-- **A store goes round**: an export of it succeeds, with a valid document in which every account
stands once, and an import of the document into an empty store succeeds, at whatever time, and leaves a
store with the outlines of its records, with its parameters, and with its values at all other keys. An
export of that store is the document again. -/
def Store.RoundTrips (host : Host) (store : Store) : Prop :=
  ∃ (m : Roster) (p : Params) (g : Genesis), store.Holds m ∧
    (World.ofStore store).run Program.params = (.ok p, World.ofStore store) ∧
    (World.ofStore store).run Forest.exportGenesis = (.ok g, World.ofStore store) ∧
    g.addresses.Nodup ∧
    (∀ address, address ∈ g.addresses ↔ ∃ a : AccountId, m.get? a ≠ none ∧ a.text = address) ∧
    g.validate = .ok () ∧
    ∀ now : Timestamp, ∃ (w : World) (m' : Roster),
      Turn.outcome host ⟨now, .importGenesis g⟩ .empty = (.ok (), w) ∧
      w.store.Holds m' ∧ (∀ a, m'.get? a = (m.get? a).map Record.outline) ∧
      (World.ofStore w.store).run Program.params = (.ok p, World.ofStore w.store) ∧
      (∀ k, (∀ a, k ≠ (Slot.record a).key) → k ≠ Slot.params.key →
        w.store.view.get? k = store.view.get? k) ∧
      (World.ofStore w.store).run Forest.exportGenesis = (.ok g, World.ofStore w.store)

/-- A root enters with a tier whose requirement it does not meet, and a referral enters below it; latest
first. -/
def SmallHistory.failingTurns : List Turn :=
  [⟨⟨10⟩, .append root leaf⟩, ⟨⟨0⟩, .addRoot root .starter⟩]

namespace Forest

variable {host : Host}

/-- **Every store with a history** goes round, if the codec accepts the addresses of its accounts. -/
theorem roundTrips_after (quiet : host.Quiet) {turns : List Turn}
    (accepted : ∀ a, ((World.ofStore (after host turns)).run (Program.hasRecord a)).1 = .ok true →
      host.Accepts a) :
    (after host turns).RoundTrips host := by
  obtain ⟨L, hkeeps, hstep, hforest, hrelated, hvalid⟩ := exists_acceptable_after quiet turns
  let p := L.params.getD .default
  obtain ⟨o, hcovers, hexport⟩ := hkeeps.run_exportGenesis hforest hrelated
  obtain ⟨honce, hall⟩ := hcovers.addresses_genesis p
  refine ⟨L.records, p, o.genesis p, holds_of_keeps hkeeps, hkeeps.run_params, hexport, honce, hall,
    hcovers.validate_genesis hvalid, fun now => ?_⟩
  obtain ⟨w, L₁, himport, hkeeps₁, hparams, houtlined, hstep₁, hsound₁, hrelated₁⟩ :=
    exists_imported quiet hkeeps hcovers hvalid accepted now
  have houtlines := Ledger.Outlines.of_records houtlined hstep hstep₁ hrelated hrelated₁
  have hsame : L₁.params.getD .default = p := by rw [hparams, Option.getD_some]
  have hagain := hkeeps.exportGenesis_outline hkeeps₁ hforest hrelated hsound₁.recounted.forest hrelated₁
    houtlines hsame
  obtain ⟨o₁, -, hexport₁⟩ := hkeeps₁.run_exportGenesis hsound₁.recounted.forest hrelated₁
  refine ⟨w, L₁.records, himport, holds_of_keeps hkeeps₁, houtlined, hsame ▸ hkeeps₁.run_params,
    fun k => houtlines.get?_eq hkeeps.stored hkeeps₁.stored, ?_⟩
  rw [hexport, hexport₁] at hagain
  rw [hexport₁]
  exact Prod.ext hagain rfl

/-- A forest with a scheduled downgrade goes round, and its document names the root with the time it is to
lose its tier. -/
theorem roundTrips_after_small :
    Host.standalone.Quiet ∧ (∀ a, Host.standalone.Accepts a) ∧
      (after Host.standalone SmallHistory.failingTurns).RoundTrips Host.standalone ∧
      ((World.ofStore (after Host.standalone SmallHistory.failingTurns)).run exportGenesis).1.map
        Genesis.downgrades = .ok [⟨"root", .starter, ⟨604810⟩⟩] :=
  ⟨Host.quiet_standalone, Host.accepts_standalone,
    roundTrips_after Host.quiet_standalone fun a _ => Host.accepts_standalone a, by decide +kernel⟩

end Forest

end ReferralForest

import ReferralForest.Proofs.Forest.Commuting
import ReferralForest.Proofs.Forest.Import

/-!
# Rebuilding a Forest

A document says nothing about stakes. But a forest that is read in from what another store writes out,
and in which everybody is then paid what they hold there, is that forest again: whatever the order of
the payments, and whenever they are made.

While the stakes come back, accounts fall short of their tiers and are put on notice. Such a notice is
taken back once the measures are those to which the tier belongs, and not before, as measures only rise;
a notice in the document stays, as measures never get beyond those to which it belongs.

## Main definitions

* `Deposit.Replays` — deposits that pay everybody what they hold.
* `Store.Rebuilds` — a store that comes about again from its document and the stakes.

## Main statements

* `Ledger.Regular.records_eq_of_rising` — records that are given back their stakes are the records.
* `Forest.exists_imported` — what an export writes out is read in as it was outlined.
* `Forest.rebuilds_after` — every store with a history of settled operations can be rebuilt.
-/

namespace ReferralForest

open Roster

/-! ### Replays -/

namespace Deposit

/-- **A series of deposits replays the stakes** of some accounts if it pays each of them once, just what
it holds, in whatever order. -/
def Replays (l : List Deposit) (accounts : List (AccountId × Record)) : Prop :=
  (l.map fun d => (d.account, d.amount)).Perm (accounts.map fun e => (e.1, e.2.selfStake.units))

variable {l : List Deposit} {m m₁ : Roster}

/-- A replay of the stakes of a forest pays everybody what they hold. -/
theorem Replays.paidTo_eq (h : Replays l m.toList) (a : AccountId) :
    paidTo l a = ((m.get? a).map fun r => r.selfStake.units).getD 0 := by
  have hsum := (h.map fun e => if e.1 = a then e.2 else 0).sum_eq
  rw [List.map_map, List.map_map] at hsum
  rw [← SortedMap.total_of_key, SortedMap.total]
  refine Eq.trans ?_ hsum
  simp only [paidTo, eq_comm (a := a)]
  rfl

/-- **A replay leads from the outline** of a forest to what its accounts hold. -/
theorem Replays.gained (h : Replays l m.toList)
    (outlined : ∀ a, m₁.get? a = (m.get? a).map Record.outline) :
    Gained m₁ m fun a => (paidTo l a : Int) := by
  intro a
  have hpaid := h.paidTo_eq a
  rw [outlined a, Option.map_map]
  cases hr : m.get? a with
  | none => rfl
  | some r =>
      rw [hr, Option.map_some, Option.getD_some] at hpaid
      simp [Record.outline, Record.bare, Record.fresh, Amount.zero, hpaid]

end Deposit

/-! ### Ledgers -/

namespace Ledger

variable {L L₁ L₂ : Ledger}

/-- **Records that are given back their stakes** are the records: a rising walk from the outline of a
regular ledger, which ends where everybody holds the same, restores all records. -/
theorem Regular.records_eq_of_rising (h : L.Regular)
    (outlined : ∀ a, L₁.records.get? a = (L.records.get? a).map Record.outline)
    (walk : Walk Edit.rising L₁ L₂) (sound : Sound L₂.records)
    (same : ∀ a, (L₂.records.get? a).map Record.origin = (L.records.get? a).map Record.origin) :
    L₂.records = L.records := by
  refine SortedMap.ext_get? fun a => ?_
  have hstart := outlined a
  cases hr : L.records.get? a with
  | none =>
      rw [hr, Option.map_none] at hstart
      exact (walk.get?_eq_none_iff a).mpr hstart
  | some r =>
      rw [hr, Option.map_some] at hstart
      obtain ⟨r₂, hr₂, -⟩ := walk.measuresLe hstart
      have hupdate := sound.eq_update h.sound same hr₂ hr
      have hclimbed : Record.Climbed { r₂ with status := r.status, downgradeAt := r.downgradeAt } :=
        hupdate ▸ h.climbed a r hr
      obtain ⟨hstatus, hdowngrade⟩ : r₂.status = r.status ∧ r₂.downgradeAt = r.downgradeAt :=
        walk.restores hstart hr₂ rfl rfl hclimbed
      rw [hr₂, hupdate, ← hstatus, ← hdowngrade]

/-- Records decide the queue and the relations. -/
theorem Regular.eq_setParams (h : L.Regular) (inStep : L₂.InStep) (related : L₂.Related)
    (same : L₂.records = L.records) {p : Params} (stored : L₂.params = some p) :
    L₂ = L.setParams p := by
  refine Ledger.ext same ?_ ?_ stored
  · ext ⟨t, a⟩
    exact (inStep t a).trans (same ▸ h.inStep t a).symm
  · ext ⟨q, c⟩
    exact (related q c).trans (same ▸ h.related q c).symm

/-- Parameters are stored under one key. -/
theorem StoredIn.get?_of_setParams {m m' : SortedMap Key Value} (h : L.StoredIn m) {p : Params}
    (h' : (L.setParams p).StoredIn m') {k : Key} (other : k ≠ Slot.params.key) :
    m'.get? k = m.get? k := by
  classical
  rw [h'.eq_map (h.put_params p), Store.get?_put, if_neg other]

end Ledger

/-- Importing moves keep the queue in step, a forest sound, and relations those of the referrers. -/
theorem Forest.Imported.invariant {L L' : Ledger} (h : Forest.Imported L L') (inStep : L.InStep)
    (sound : Sound L.records) (related : L.Related) :
    L'.InStep ∧ Sound L'.records ∧ L'.Related := by
  obtain ⟨ms, hpath, himports⟩ := h
  refine hpath.invariant (I := fun M => M.InStep ∧ Sound M.records ∧ M.Related) ?_
    ⟨inStep, sound, related⟩
  rintro m hm M M' htakes ⟨hstep, hsound, hrelated⟩
  have hfull := hsound.recounted.full
  have hleaves : m.LeavesActivity := by
    have himport := himports m hm
    cases m with
    | setActive => exact himport.elim
    | _ => trivial
  exact ⟨htakes.inStep hfull hstep, htakes.sound hleaves hsound, htakes.related hfull hrelated⟩

/-- Every account has an address that the codec of the small host accepts. -/
theorem Host.accepts_standalone (a : AccountId) : Host.standalone.Accepts a := by
  have hnonempty := a.text_ne_empty
  have hbeginning : utf8Bytes "" = [] := by decide
  refine ⟨utf8Bytes a.text, ?_⟩
  simp [Host.standalone, AddressCodec.plain, hnonempty, hbeginning]

/-! ### Stores -/

/-- **A store can be rebuilt** if an export of it succeeds, and an import of what it writes into an
empty store and then a replay of the stakes, in any order and at any times to which the grace period can
be added, all succeed and lead to a store with the same parameters and the same keys and values
besides. -/
def Store.Rebuilds (host : Host) (store : Store) : Prop :=
  ∃ (accounts : List (AccountId × Record)) (p : Params) (g : Genesis),
    (World.ofStore store).run Program.allRecords = (.ok accounts, World.ofStore store) ∧
    (World.ofStore store).run Program.params = (.ok p, World.ofStore store) ∧
    (World.ofStore store).run Forest.exportGenesis = (.ok g, World.ofStore store) ∧
    ∀ (now : Timestamp) (replay : List Deposit), Deposit.Replays replay accounts →
      (∀ d ∈ replay, (d.time.add? p.gracePeriod).isSome) →
      ∃ store', Forest.completed? host (⟨now, .importGenesis g⟩ :: replay.map Deposit.turn) .empty =
          some store' ∧
        (World.ofStore store').run Program.params = (.ok p, World.ofStore store') ∧
        ∀ k, k ≠ Slot.params.key → store'.view.get? k = store.view.get? k

namespace Forest

variable {host : Host}

/-- **What an export writes out is read in**, into an empty store: all enters as it was outlined, in step,
sound and related. -/
theorem exists_imported (quiet : host.Quiet) {store : Store} {L : Ledger} {o : Layout}
    {p : Params} (keeps : (World.ofStore store).Keeps L) (covers : o.Covers L.records)
    (valid : p.validate = .ok ())
    (accepted : ∀ a, ((World.ofStore store).run (Program.hasRecord a)).1 = .ok true → host.Accepts a)
    (now : Timestamp) :
    ∃ w L', (⟨now, .importGenesis (o.genesis p)⟩ : Turn).outcome host .empty = (.ok (), w) ∧
      (World.ofStore w.store).Keeps L' ∧ L'.params = some p ∧
      (∀ a, L'.records.get? a = (L.records.get? a).map Record.outline) ∧
      L'.InStep ∧ Sound L'.records ∧ L'.Related := by
  have haccepted : ∀ e ∈ o.members, host.Accepts e.1 := by
    intro e he
    refine accepted e.1 ?_
    rw [keeps.run_hasRecord, (covers.consists e).mp he]
    rfl
  have hattains : (importGenesis host (o.genesis p)).Attains .empty fun _ L' =>
      (L'.params = some p ∧ ∀ a, L'.records.get? a = (L.records.get? a).map Record.outline) ∧
        Imported .empty L' :=
    (attains_importGenesis quiet covers valid haccepted).and_leads
      (leads_importGenesis quiet (o.genesis p))
  obtain ⟨w, L', himport, hkeeps, ⟨hparams, houtlined⟩, himported⟩ :=
    exists_outcome ⟨now, .importGenesis (o.genesis p)⟩ keeps_empty hattains
  exact ⟨w, L', himport, hkeeps, hparams, houtlined, himported.invariant .empty .empty .empty⟩

/-- **Every store with a history** of operations that settle what they change and leave activity to the
stakes can be rebuilt, if the codec accepts the addresses of its accounts. What is read in is the outline of
the forest, and the replay leads from there to what everybody holds. -/
theorem rebuilds_after (quiet : host.Quiet) (unfailing : host.Unfailing) {turns : List Turn}
    (settles : ∀ turn ∈ turns, turn.operation.Settles)
    (leaves : ∀ turn ∈ turns, turn.operation.LeavesActivity)
    (accepted : ∀ a, ((World.ofStore (after host turns)).run (Program.hasRecord a)).1 = .ok true →
      host.Accepts a) :
    (after host turns).Rebuilds host := by
  obtain ⟨L, hkeeps, hregular⟩ := exists_regular quiet settles leaves
  let p := L.params.getD .default
  obtain ⟨o, hcovers, hexport⟩ :=
    hkeeps.run_exportGenesis hregular.sound.recounted.forest hregular.related
  refine ⟨L.records.toList, p, o.genesis p, hkeeps.run_allRecords, hkeeps.run_params, hexport, ?_⟩
  intro now replay hreplays htimed
  have hvalid : p.validate = .ok () := Ledger.validate_params hregular.acceptable
  obtain ⟨w, L₁, himport, hkeeps₁, hparams, houtlined, hstep₁, hsound₁, hrelated₁⟩ :=
    exists_imported quiet hkeeps hcovers hvalid accepted now
  have hcheckable : L₁.Checkable {t | (t.add? p.gracePeriod).isSome} := by
    refine .inl fun t ht => ?_
    rw [Ledger.Timely, hparams]
    exact Option.isSome_iff_exists.mp ht
  obtain ⟨store', L₂, hdone, hkeeps₂, hwalk, hsound₂, hsame⟩ := exists_completed_of_gained quiet
    unfailing hregular.sound htimed hkeeps₁ hsound₁ hcheckable (hreplays.gained houtlined)
  have hrecords := hregular.records_eq_of_rising houtlined hwalk hsound₂ hsame
  obtain rfl := hregular.eq_setParams (hstep₁.walk hwalk) (hrelated₁.walk hwalk) hrecords
    (hwalk.params_eq.trans hparams)
  refine ⟨store', completed?_cons_eq_some_iff.mpr ⟨w, himport, hdone⟩, hkeeps₂.run_params, ?_⟩
  exact fun k hk => hkeeps.stored.get?_of_setParams hkeeps₂.stored hk

/-- The small forest comes about again if the root is paid nothing, and then the referral what it
holds. -/
theorem rebuilds_after_small : ∃ g store,
    (World.ofStore (after Host.standalone SmallHistory.turns)).run exportGenesis =
      (.ok g, World.ofStore (after Host.standalone SmallHistory.turns)) ∧
    completed? Host.standalone [⟨⟨1000⟩, .importGenesis g⟩,
      ⟨⟨1001⟩, .changeStake SmallHistory.root (0 : Nat)⟩,
      ⟨⟨1002⟩, .changeStake SmallHistory.leaf (100000000 : Nat)⟩] .empty = some store ∧
    ∀ k, k ≠ Slot.params.key →
      store.view.get? k = (after Host.standalone SmallHistory.turns).view.get? k := by
  obtain ⟨accounts, p, g, haccounts, hparams, hexport, hrebuilds⟩ := rebuilds_after
    Host.quiet_standalone Host.unfailing_standalone SmallHistory.settles SmallHistory.leavesActivity
    fun a _ => Host.accepts_standalone a
  have hlisted : ((World.ofStore (after Host.standalone SmallHistory.turns)).run
      Program.allRecords).1.toOption.map (fun l => l.map fun e => (e.1, e.2.selfStake.units)) =
        some [(SmallHistory.leaf, 100000000), (SmallHistory.root, 0)] := by decide +kernel
  have hgrace : ((World.ofStore (after Host.standalone SmallHistory.turns)).run
      Program.params).1.toOption = some .default := by decide +kernel
  rw [haccounts] at hlisted
  rw [hparams] at hgrace
  obtain rfl : p = .default := Option.some.inj hgrace
  have hreplays : Deposit.Replays [⟨⟨1001⟩, SmallHistory.root, 0⟩,
      ⟨⟨1002⟩, SmallHistory.leaf, 100000000⟩] accounts := by
    have hlist : accounts.map (fun e => (e.1, e.2.selfStake.units)) =
        [(SmallHistory.leaf, 100000000), (SmallHistory.root, 0)] := Option.some.inj hlisted
    rw [Deposit.Replays, hlist]
    exact .swap _ _ _
  obtain ⟨store, hdone, -, hsame⟩ := hrebuilds ⟨1000⟩ _ hreplays (by decide)
  exact ⟨g, store, hexport, hdone, hsame⟩

end Forest

end ReferralForest

import ReferralForest.Proofs.Forest.History

/-!
# The Downgrade Queue

The downgrade queue is kept twice: as keys of the store, written at once, and as schedules in the
records, written when an operation ends. After every history the two agree.

## Main definitions

* `Store.QueueAgrees` — the keys of the queue and the records say the same.

## Main statements

* `Forest.queueAgrees_after` — they do after every history.
-/

namespace ReferralForest

/-- **The queue and the records agree.** A queue key is in the store just if the account has a record
that is scheduled for that time; so no account has two entries, and listing the queue gives just the
schedules of the records, in order of time and account. -/
def Store.QueueAgrees (store : Store) : Prop :=
  ∃ m : Roster, store.Holds m ∧
    (∀ t a, store.view.contains (Slot.downgrade t a).key = true ↔
      ∃ r, m.get? a = some r ∧ r.downgradeAt = some t) ∧
    (∀ s t a, store.view.contains (Slot.downgrade s a).key = true →
      store.view.contains (Slot.downgrade t a).key = true → s = t) ∧
    ∃ scheduled : List (Timestamp × AccountId),
      (World.ofStore store).run Program.scheduled = (.ok scheduled, World.ofStore store) ∧
      scheduled.Pairwise QueueBefore ∧
      ∀ t a, (t, a) ∈ scheduled ↔ ∃ r, m.get? a = some r ∧ r.downgradeAt = some t

/-- A store that keeps a ledger has the keys of the ledger's queue. -/
theorem Ledger.StoredIn.contains_downgrade_iff {L : Ledger} {m : SortedMap Key Value}
    (h : L.StoredIn m) (t : Timestamp) (a : AccountId) :
    m.contains (Slot.downgrade t a).key = true ↔ (t, a) ∈ L.queue := by
  rw [SortedMap.contains, h.value, value?, Option.isSome_ite]

/-- **The queue and the records agree after every history.** -/
theorem Forest.queueAgrees_after {host : Host} (quiet : host.Quiet) (turns : List Turn) :
    (Forest.after host turns).QueueAgrees := by
  have hall : ∃ L, (World.ofStore (after host turns)).Keeps L ∧ L.InStep ∧ True :=
    invariant quiet trivial fun _ _ _ _ _ _ _ _ _ _ => trivial
  obtain ⟨L, hkeeps, hstep, -⟩ := hall
  have hkey := hkeeps.stored.contains_downgrade_iff
  obtain ⟨scheduled, hsorted, hmem, hrun⟩ := hkeeps.run_scheduled
  refine ⟨L.records, holds_of_keeps hkeeps, fun t a => (hkey t a).trans (hstep t a), ?_,
    scheduled, hrun, hsorted, fun t a => (hmem t a).trans (hstep t a)⟩
  intro s t a hs ht
  exact hstep.eq_of_mem ((hkey s a).mp hs) ((hkey t a).mp ht)

/-- After the small history the referral loses a unit of the stake for its tier: queue and record say when it
will lose the tier. -/
theorem Forest.queueAgrees_after_small :
    let store := Forest.after Host.standalone
      (⟨⟨1000⟩, .changeStake SmallHistory.leaf (-1)⟩ :: SmallHistory.turns)
    Host.standalone.Quiet ∧ store.QueueAgrees ∧
      ((World.ofStore store).run Program.scheduled).1 = .ok [(⟨605800⟩, SmallHistory.leaf)] ∧
      ((World.ofStore store).run (Program.record SmallHistory.leaf)).1.map Record.downgradeAt =
        .ok (some ⟨605800⟩) :=
  ⟨Host.quiet_standalone, queueAgrees_after Host.quiet_standalone _, by decide +kernel, by decide +kernel⟩

end ReferralForest

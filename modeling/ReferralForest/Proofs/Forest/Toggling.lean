import ReferralForest.Proofs.Cascade.Loading
import ReferralForest.Proofs.Cascade.Messages

/-!
# Toggling Activity

An account is made active, without status checks, and then inactive again: every record is as it was. Made
active twice, it is as if it had been made active once. For that the store need not have come about by a
history: nothing is asked of the counts in its records, ancestors may be missing, and accounts elsewhere may
be their own ancestors. It is enough that the records can be read and that the way up from the account, as
far as the cascade looks, meets nobody twice.

A way up that meets an account twice is a different matter: what the account tells the second time depends
on what it heard the first time, and the way back meets it in the same order and not in the opposite one.

## Main definitions

* `Store.setActivity` — an account is made active or inactive in a store.
* `Store.TogglesBack` — what is done once or twice, and undone.

## Main statements

* `Store.Holds.of_setActivity`, `Store.Holds.setActivity_of_toggles` — what comes of it is a flip.
* `Forest.toggles_back` — toggling is idempotent, and can be undone.
-/

namespace ReferralForest

namespace Store

variable {store store' : Store} {m m' : Roster} {host : Host} {a : AccountId} {active : Bool}

/-- **An account is made active or inactive** in a store, without status checks: the result, and the store
afterwards. -/
def setActivity (store : Store) (host : Host) (a : AccountId) (active : Bool) :
    Except Error Unit × Store :=
  let (result, w) := (World.ofStore store).run ((Cascade.setActive none a active).commit host)
  (result, w.store)

/-- **Toggling activity.** Where an account that is not active can be made active, and the fifteen accounts
above it are different from it and from each other, making it active again changes no record, and making it
inactive succeeds and gives every account the record it had. -/
def TogglesBack (store : Store) (host : Host) : Prop :=
  ∃ m : Roster, store.Holds m ∧ ∀ a store₁, (m.ascent 16 (some a)).Nodup →
    (∀ r, m.get? a = some r → r.active = false) →
    store.setActivity host a true = (.ok (), store₁) → ∃ m₁ : Roster, store₁.Holds m₁ ∧
      (∃ store₂, store₁.setActivity host a true = (.ok (), store₂) ∧ store₂.Holds m₁) ∧
      ∃ store₃, store₁.setActivity host a false = (.ok (), store₃) ∧ store₃.Holds m

namespace Holds

variable (holds : store.Holds m) (free : store.Unlimited)
include holds free

/-- A cascade that goes through on the records leaves a store that holds what it leaves of them. -/
theorem setActivity_of_yields {D' : Draft} (whole : D'.records.Whole)
    (h : (Cascade.setActive none a active).Yields m.draft () D') :
    ∃ store', store.setActivity host a active = (.ok (), store') ∧ store'.Unlimited ∧
      store'.Holds D'.records := by
  obtain ⟨w', hrun, hafter⟩ := holds.run_commit free host (Cascade.only_setActive a active)
  obtain ⟨hfree, hholds⟩ := hafter () D' h whole
  rw [h] at hrun
  exact ⟨w'.store, by rw [setActivity, hrun], hfree, hholds⟩

/-- **An account that is as asked for** is left as it is, and so are all others. -/
theorem setActivity_of_asked (asked : ∀ r, m.get? a = some r → r.active = active) :
    ∃ store', store.setActivity host a active = (.ok (), store') ∧ store'.Unlimited ∧
      store'.Holds m := by
  have hwhole : m.draft.records.Whole := holds.whole free
  obtain ⟨D', hyields, hrecords⟩ := Cascade.exists_setActive_of_asked hwhole.padded asked
  have hsame : D'.records = m := hrecords
  rw [← hsame]
  exact holds.setActivity_of_yields free (hrecords ▸ hwhole) hyields

section Distinct

variable (distinct : (m.ascent 16 (some a)).Nodup)
include distinct

/-- A flip of the records is carried out. -/
theorem setActivity_of_toggles (h : m.Toggles active a m') :
    ∃ store', store.setActivity host a active = (.ok (), store') ∧ store'.Unlimited ∧
      store'.Holds m' := by
  have hwhole : m.draft.records.Whole := holds.whole free
  obtain ⟨D', hyields, rfl⟩ := Cascade.exists_setActive_of_toggles hwhole distinct h
  exact holds.setActivity_of_yields free (h.whole hwhole) hyields

/-- **What is carried out is a flip**, unless the account is as asked for. -/
theorem of_setActivity (h : store.setActivity host a active = (.ok (), store')) :
    store'.Unlimited ∧ ∃ m' : Roster, store'.Holds m' ∧
      (m' = m ∧ (∀ r, m.get? a = some r → r.active = active) ∨ m.Toggles active a m') := by
  have hwhole : m.draft.records.Whole := holds.whole free
  obtain ⟨w', hrun, hafter⟩ := holds.run_commit free host (Cascade.only_setActive a active)
  rw [setActivity, hrun] at h
  obtain ⟨hresult, rfl⟩ := Prod.mk.inj h
  have hyields : (Cascade.setActive none a active).Yields m.draft () _ := Prod.ext hresult rfl
  have hflips := Cascade.toggles_of_setActive hwhole distinct hyields
  have hwhole' : Roster.Whole _ := hflips.elim (fun h => h.1 ▸ hwhole) fun h => h.whole hwhole
  obtain ⟨hfree, hholds⟩ := hafter () _ hyields hwhole'
  exact ⟨hfree, _, hholds, hflips⟩

end Distinct

end Holds

end Store

namespace Forest

/-- **Toggling activity is idempotent and can be undone**, in every store whose records can be read. -/
theorem toggles_back {store : Store} (free : store.Unlimited) (decodable : store.Decodable)
    (host : Host) : store.TogglesBack host := by
  obtain ⟨m, holds⟩ := decodable.exists_holds free
  refine ⟨m, holds, fun a store₁ distinct inactive hrun => ?_⟩
  obtain ⟨hfree, m₁, holds₁, ⟨rfl, asked⟩ | hflip⟩ := holds.of_setActivity free distinct hrun
  · have hnone : ∀ active r, m₁.get? a = some r → r.active = active := fun _ r hr =>
      absurd ((asked r hr).symm.trans (inactive r hr)) (by decide)
    obtain ⟨store₂, hagain, -, holds₂⟩ := holds₁.setActivity_of_asked hfree (hnone true)
    obtain ⟨store₃, hback, -, holds₃⟩ := holds₁.setActivity_of_asked hfree (hnone false)
    exact ⟨m₁, holds₁, ⟨store₂, hagain, holds₂⟩, store₃, hback, holds₃⟩
  · have hback := hflip.reverse distinct
    have hactive : ∀ r, m₁.get? a = some r → r.active = true := by
      obtain ⟨r₁, hr₁, hnot⟩ := hback.exists_flips
      intro r hr
      obtain rfl := Option.some.inj (hr₁.symm.trans hr)
      simpa using hnot
    have hdistinct : (m₁.ascent 16 (some a)).Nodup := by rwa [Roster.ascent_congr hflip.parentOf_eq]
    obtain ⟨store₂, hagain, -, holds₂⟩ := holds₁.setActivity_of_asked hfree hactive
    obtain ⟨store₃, hundo, -, holds₃⟩ := holds₁.setActivity_of_toggles hfree hdistinct hback
    exact ⟨m₁, holds₁, ⟨store₂, hagain, holds₂⟩, store₃, hundo, holds₃⟩

namespace SmallToggle

open SmallHistory (leaf root)

/-- The referrer of the leaf. -/
def recruiter : AccountId := ⟨"recruiter", by decide, by decide⟩

/-- An account without a record. -/
def missing : AccountId := ⟨"missing", by decide, by decide⟩

/-- Three records whose counts are those of no forest: one lacks most of its generations, another is about to
cross the border of three and to change the size class of its team, and the root has a referrer that is
missing. -/
def store : Store := .ofEntries <|
  ((SortedMap.empty.insert (Slot.record leaf).key
    { Record.fresh (some recruiter) .new with generations := [4, 7] }.encode).insert (Slot.record recruiter).key
    { Record.fresh (some root) .new with
      active := true, generations := List.replicate 16 1, tallies := ⟨2, 0, -1, 0, 0, 9, 0⟩ }.encode).insert
    (Slot.record root).key
    { Record.fresh (some missing) .leader with
      active := true, tallies := ⟨-5, -1, 0, 3, 0, 0, 0⟩ }.encode

/-- All records of that store can be read, inconsistent as they are. -/
theorem decodable_store : store.Decodable :=
  ((Store.decodable_empty.insert leaf (by decide)).insert recruiter (by decide)).insert root (by decide)

end SmallToggle

/-- Toggling is undone where no count is right, and the leaf can be toggled there. -/
theorem toggles_back_small :
    SmallToggle.store.Unlimited ∧ SmallToggle.store.Decodable ∧
      (SmallToggle.store.setActivity .standalone SmallHistory.leaf true).1.isOk = true ∧
      SmallToggle.store.TogglesBack .standalone := by
  have hfree : SmallToggle.store.Unlimited := rfl
  exact ⟨hfree, SmallToggle.decodable_store, by decide +kernel,
    toggles_back hfree SmallToggle.decodable_store .standalone⟩

end Forest

end ReferralForest

import ReferralForest.Proofs.Forest.Activity
import ReferralForest.Proofs.Status.Requirements

/-!
# Settled Accounts

An account that is scheduled to lose its tier fails the requirement of the tier; one that is not holds
the highest tier for which it qualifies. A status check leaves a record so, and no change of what
requirements look at goes without one, whichever account it began at.

A status check climbs tier by tier and stops at the first that fails. That the tiers above fail too is
due to the counts being right: a record that met a higher tier and failed a lower one would have more
referrals by three than referrals.

## Main definitions

* `Operation.Settles` — the operations that leave every account settled.
* `Store.Settled` — every account a store holds is settled.

## Main statements

* `Record.Climbed.metBy_eq_false` — a record that has climbed fails every tier above its own.
* `Forest.settled_after` — every account is settled after every history of such operations.
-/

namespace ReferralForest

/-- **A record that has climbed** and is not scheduled fails the requirements of all tiers above its
own. -/
theorem Record.Climbed.metBy_eq_false {r : Record} (h : r.Climbed) (hnone : r.downgradeAt = none)
    (hthree : r.tallies.firstLineByThree.toInt ≤ r.tallies.firstLine.toInt) {t : Status}
    (ht : r.status < t) : t.metBy r = false := by
  have hplace : r.status.rank + 1 ≤ 8 := Nat.le_trans (Status.lt_def.mp ht) t.rank_le
  obtain ⟨u, hu⟩ := Status.exists_rank_eq hplace
  have hnext : r.status.next? = some u := by rw [Status.next?, ← hu, Status.ofRank?_rank]
  have hstop := h.stops hnone u hnext
  rw [← Bool.not_eq_true] at hstop ⊢
  exact fun hmet => hstop (Status.metBy_of_le hthree (Status.le_def.mpr (hu ▸ ht)) hmet)

/-- Where the counts are right, no more referrals count by three than count at all. -/
theorem Roster.Tallied.byThree_le_firstLine {m : Roster} (h : Tallied m) {a : AccountId} {r : Record}
    (found : m.get? a = some r) :
    r.tallies.firstLineByThree.toInt ≤ r.tallies.firstLine.toInt := by
  have hline : r.tallies.firstLine.toInt = _ := h a r .firstLine found
  have hthree : r.tallies.firstLineByThree.toInt = _ := h a r .byThree found
  rw [hline, hthree, Int.ofNat_le]
  refine SortedMap.count_le_count fun _ s => ?_
  simp only [Record.countsFor, Bool.and_eq_true]
  exact fun hs => ⟨⟨hs.1.1, trivial⟩, hs.2⟩

/-! ### Moves -/

/-- A new account of the lowest earned tier has climbed as far as it can. -/
theorem Record.climbed_fresh (p : Option AccountId) : (Record.fresh p .new).Climbed where
  unmet h := absurd rfl h
  met _ := rfl
  stops _ t ht := by
    obtain rfl := Option.some.inj ht
    rw [← Bool.not_eq_true, Status.metBy_iff]
    intro hmet
    have hstake : 100 ≤ Amount.zero.displayUnits := (hmet _ rfl).selfStake
    exact absurd hstake (by decide)

/-- A property of records that only depends on the tier, the schedule and what requirements look at, and
that holds of every record that has climbed. -/
structure Record.Lasting (Q : Record → Prop) : Prop where
  /-- It holds of every record that has climbed. -/
  climbed : ∀ r, r.Climbed → Q r
  /-- It does not depend on anything else. -/
  congr : ∀ r r', Q r → r'.measures = r.measures → r'.status = r.status →
    r'.downgradeAt = r.downgradeAt → Q r'

/-- To have climbed is lasting. -/
theorem Record.Climbed.lasting : Record.Lasting Record.Climbed :=
  ⟨fun _ h => h, fun _ _ h => h.congr⟩

/-- **A walk with status checks** keeps what is lasting of all records, since a change that goes without
a check changes nothing that requirements look at. -/
theorem Ledger.Walk.forall_record {Q : Record → Prop} {now : Timestamp} {L L' : Ledger}
    (walk : Ledger.Walk (Edit.settled (some now)) L L') (lasting : Record.Lasting Q)
    (h : ∀ a r, L.records.get? a = some r → Q r) : ∀ a r, L'.records.get? a = some r → Q r := by
  refine walk.invariant (I := fun M => ∀ a r, M.records.get? a = some r → Q r) (fun M M' hs hM => ?_) h
  obtain ⟨found, edits, how, settles⟩ := hs
  rw [Ledger.put, settles.records_eq]
  refine SortedMap.forall_insert hM ?_
  obtain rfl | ⟨rfl, hmeasures⟩ := how
  · exact lasting.climbed _ settles.climbed
  · cases settles
    exact lasting.congr _ _ (hM _ _ found) hmeasures edits.status edits.downgradeAt

/-- Whether a move has all that it changes checked. -/
def Move.Checks : Move → Prop
  | .reschedule _ _ => False
  | .setActive checkAt _ _ => checkAt ≠ none
  | _ => True

/-- **A move** that has checked what it changes keeps what is lasting of all records, if new accounts have
it. -/
theorem Move.Takes.forall_record {Q : Record → Prop} {mv : Move} {L L' : Ledger} (h : mv.Takes L L')
    (checks : mv.Checks) (full : Roster.Full L.records) (lasting : Record.Lasting Q)
    (root : ∀ a s, mv = .addRoot a s → Q (.fresh none s))
    (referral : ∀ p c s, mv = .addReferral p c s → Q (.fresh (some p) s))
    (hQ : ∀ a r, L.records.get? a = some r → Q r) : ∀ a r, L'.records.get? a = some r → Q r := by
  cases h with
  | setParams => exact hQ
  | addRoot => exact SortedMap.forall_insert hQ (root _ _ rfl)
  | addReferral => exact SortedMap.forall_insert hQ (referral _ _ _ rfl)
  | register fresh placed parent above =>
      next L₁ now p c =>
        have hfresh : ∀ a r, (L.put c (.fresh (some p) .new)).records.get? a = some r → Q r :=
          SortedMap.forall_insert hQ (lasting.climbed _ (Record.climbed_fresh (some p)))
        have hparent := (parent.mono fun _ _ _ how => .inl how.1 :
          Ledger.Walk (Edit.settled (some now)) _ _).forall_record lasting hfresh
        have habove := (above.mono fun _ _ _ how => .inl how.1 :
          Ledger.Walk (Edit.settled (some now)) _ _).forall_record lasting
        exact habove hparent
  | changeStake course => exact (Cascade.walk_changeStake full course).forall_record lasting hQ
  | setActive course =>
      obtain ⟨now, rfl⟩ := Option.ne_none_iff_exists'.mp checks
      have hwalk := Cascade.walk_setActive (D := L.draft) full course
      exact Ledger.Walk.forall_record (hwalk.mono fun _ _ _ how => Edit.settled_of_activity how)
        lasting hQ
  | reschedule => exact checks.elim
  | lower found scheduled due checked =>
      rw [Ledger.put, checked.records_eq]
      exact SortedMap.forall_insert hQ (lasting.climbed _ checked.climbed)

/-- Every record has climbed as far as it can, or fails its tier's requirement and is scheduled. -/
def Roster.Climbed (m : Roster) : Prop := ∀ a r, m.get? a = some r → r.Climbed

/-- Where there are no records everybody has climbed. -/
theorem Roster.Climbed.empty : Roster.Climbed .empty := by
  intro a r hr
  simp at hr

/-- Whether a move leaves every account settled: a root enters at the lowest earned tier, and whatever
else changes is checked. -/
def Move.Settles : Move → Prop
  | .addRoot _ s => s = .new
  | .addReferral _ _ _ | .reschedule _ _ => False
  | .setActive checkAt _ _ => checkAt ≠ none
  | _ => True

/-- **A move** that settles what it changes leaves every record climbed. -/
theorem Move.Takes.climbed {mv : Move} {L L' : Ledger} (h : mv.Takes L L') (settles : mv.Settles)
    (full : Roster.Full L.records) (climbed : Roster.Climbed L.records) :
    Roster.Climbed L'.records := by
  have checks : mv.Checks := by
    cases mv with
    | addReferral | reschedule => exact settles.elim
    | setActive => exact settles
    | _ => trivial
  refine h.forall_record checks full Record.Climbed.lasting ?_ ?_ climbed
  · rintro a s rfl
    obtain rfl := settles
    exact Record.climbed_fresh none
  · rintro p c s rfl
    exact settles.elim

/-! ### Histories -/

/-- Whether an operation leaves every account settled. -/
def Operation.Settles : Operation → Prop
  | .addRoot _ s => s = .new
  | .importGenesis _ | .importParts _ _ _ => False
  | .setActive _ _ checked => checked = true
  | _ => True

/-- The operations of the small history leave every account settled. -/
theorem SmallHistory.settles : ∀ turn ∈ turns, turn.operation.Settles := by
  simp [turns, Operation.Settles]

/-- The moves of an operation that leaves every account settled do so. -/
theorem Operation.Allows.settles {now : Timestamp} {op : Operation} {mv : Move}
    (h : op.Allows now mv) (settles : op.Settles) : mv.Settles := by
  cases op with
  | addRoot => exact h ▸ settles
  | register =>
      obtain ⟨p, c, rfl⟩ := h
      trivial
  | importGenesis => exact settles.elim
  | importParts => exact settles.elim
  | setActive a active checked =>
      obtain rfl := h
      obtain rfl := settles
      simp [Move.Settles]
  | beginBlock =>
      obtain ⟨t, a, rfl⟩ := h
      trivial
  | _ => exact h ▸ trivial

/-- **Every account is settled.** A scheduled one fails the requirement of its tier; one that is not
scheduled meets it and fails those of all tiers above. -/
def Store.Settled (store : Store) : Prop :=
  ∃ m : Roster, store.Holds m ∧ ∀ a r, m.get? a = some r →
    (r.downgradeAt ≠ none → (r.status.assess r).overall = false) ∧
    (r.downgradeAt = none → (r.status.assess r).overall = true ∧
      ∀ t, r.status < t → (t.assess r).overall = false)

/-- **Every account is settled after every history** of operations that settle what they change. -/
theorem Forest.settled_after {host : Host} (quiet : host.Quiet) {turns : List Turn}
    (settles : ∀ turn ∈ turns, turn.operation.Settles) : (Forest.after host turns).Settled := by
  have hall : ∃ L, (World.ofStore (after host turns)).Keeps L ∧ L.InStep ∧
      Roster.Recounted L.records ∧ Roster.Climbed L.records := by
    refine invariant quiet ⟨.empty, .empty⟩ ?_
    intro turn hturn mv hallows L L' full _ htakes hL
    have hsettles := hallows.settles (settles turn hturn)
    exact ⟨htakes.recounted hL.1, htakes.climbed hsettles full hL.2⟩
  obtain ⟨L, hkeeps, -, hcounts, hclimbed⟩ := hall
  refine ⟨L.records, holds_of_keeps hkeeps, fun a r found => ⟨(hclimbed a r found).unmet, ?_⟩⟩
  intro hnone
  have hthree := hcounts.tallied.byThree_le_firstLine found
  exact ⟨(hclimbed a r found).met hnone, fun t ht => (hclimbed a r found).metBy_eq_false hnone hthree ht⟩

/-- Every account is settled after the small history: the referral has climbed to the tier its stake is
enough for. -/
theorem Forest.settled_after_small :
    (Host.standalone.Quiet ∧ ∀ turn ∈ SmallHistory.turns, turn.operation.Settles) ∧
      (Forest.after Host.standalone SmallHistory.turns).Settled ∧
      ((World.ofStore (Forest.after Host.standalone SmallHistory.turns)).run
        (Program.record SmallHistory.leaf)).1.map (fun r => (r.status, r.downgradeAt)) =
          .ok (.starter, none) :=
  ⟨⟨Host.quiet_standalone, SmallHistory.settles⟩,
    settled_after Host.quiet_standalone SmallHistory.settles, by decide +kernel⟩

end ReferralForest

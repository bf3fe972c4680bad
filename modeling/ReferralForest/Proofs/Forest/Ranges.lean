import ReferralForest.Proofs.Cascade.Failing
import ReferralForest.Proofs.Forest.Attaining
import ReferralForest.Proofs.Forest.Delegations
import ReferralForest.Proofs.Forest.Regular

/-!
# Stake Changes in Range

A stake change checks many quantities: the own stake, the team stakes of all ancestors, their counters
and tallies, and the times of notices. On a sound forest most of these checks are idle. A counter arrives
at the number of accounts active at its generation and a tally at a number of referrals, so neither falls
below nothing, and neither is more than there are accounts, of which no machine holds as many as a count
can tell; a team stake arrives at what is staked below the account, so it can only become too large. What
is left to fail for is the own stake, a team stake that becomes too large, and the time of a notice.

The argument follows the cascade phase by phase: the counts are right up to what is still owed, so each
check is about a recount of the forest as it is then.

## Main definitions

* `Store.Addressable` — the stores whose keys a machine can hold.
* `Roster.HasRoom`, `Roster.Exceeds` — a stake change is in range, and what of it is not.
* `Store.TakesStakes` — what comes of stake changes to a store.

## Main statements

* `Cascade.failsFor_raiseTeams`, `Cascade.failsFor_setActive`, `Cascade.failsFor_changeStake` — what the
  phases of a stake change can fail for.
* `Forest.takesStakes_after` — stake changes in range succeed after every history.
-/

namespace ReferralForest

/-- **A machine can hold the keys of a store**: its addresses have 64 bits, and a collection takes up no
more than half of them. -/
def Store.Addressable (store : Store) : Prop := store.size < 2 ^ 63

instance (store : Store) : Decidable store.Addressable := inferInstanceAs (Decidable (_ < _))

/-! ### What fits -/

/-- **A ledger in range** as of a time: its accounts can be counted, and if the time of a notice cannot be
told, that is accounted for. -/
structure Ledger.InRange (L : Ledger) (now : Timestamp) (Q : String → Prop) : Prop where
  /-- All records are full. -/
  full : Roster.Full L.records
  /-- There are no more accounts than a count can tell. -/
  few : L.records.size < 2 ^ 63
  /-- The time of a notice can be told, or is accounted for. -/
  notice : ¬ L.Timely now → Q "downgrade time"

namespace Ledger

variable {L L' : Ledger} {P : Edit} {now : Timestamp} {Q : String → Prop}

/-- A walk creates no record and removes none. -/
theorem Walk.size_eq (h : Walk P L L') : L'.records.size = L.records.size := by
  refine h.invariant (I := fun M => M.records.size = L.records.size) (fun M M' hs hM => ?_) rfl
  obtain ⟨found, -, -, settles⟩ := hs
  rw [Ledger.put, settles.records_eq, SortedMap.size_insert found, hM]

/-- A walk keeps a ledger in range. -/
theorem InRange.walk (h : L.InRange now Q) (walk : Walk P L L') : L'.InRange now Q where
  full := walk.full h.full
  few := walk.size_eq ▸ h.few
  notice := by
    rw [Timely, walk.params_eq]
    exact h.notice

end Ledger

namespace Roster

variable {m : Roster} {a : AccountId} {r : Record} {owed : TallyKind → Int}

/-- **What the tallies of an account come to fits**, if the accounts can be counted: it is a number of
referrals. -/
theorem TalliedUpTo.fits (h : TalliedUpTo m (some a) owed) (few : m.size < 2 ^ 63)
    (found : m.get? a = some r) (k : TallyKind) :
    0 ≤ (r.tallies.get k).toInt + owed k ∧ FitsInt64 ((r.tallies.get k).toInt + owed k) := by
  have hcount := h a r k found
  rw [if_pos rfl] at hcount
  have hle : childrenFor m a k ≤ m.size := SortedMap.count_le_size m _
  have hmin : Int64.minValue.toInt = -2 ^ 63 := by decide
  have hmax : Int64.maxValue.toInt = 2 ^ 63 - 1 := by decide
  rw [hcount, FitsInt64]
  omega

/-- **What a generation comes to fits**, if the accounts can be counted. -/
theorem activeAt_lt_size (few : m.size < 2 ^ 63) (a : AccountId) (g : Nat) :
    activeAt m a g < UInt64.size := by
  have hle : activeAt m a g ≤ m.size := SortedMap.count_le_size m _
  have hsize : UInt64.size = 2 ^ 64 := by decide
  omega

end Roster

/-! ### The phases of a stake change -/

namespace Cascade

open Roster

variable {β : Type} {D D' : Draft} {now : Timestamp} {a x : AccountId} {delta : Int}
  {bound level levels : Nat} {Q : String → Prop}

/-- An update in range fails for what its change fails for. -/
theorem failsFor_update {R : Record → Record → Prop} {change : Record → Cascade (β × Record)}
    (inRange : D.toLedger.InRange now Q) (plain : Plain R change)
    (changes : ∀ r, D.records.get? a = some r → (change r).FailsFor D Q) :
    (update (some now) a change).FailsFor D Q :=
  .update inRange.full plain (fun _ h => Option.some.inj h ▸ inRange.notice) changes

/-! #### Counts -/

/-- Counting a flipped child fails for no count. -/
theorem failsFor_countChild {child : Flip} {active : Bool} {parent : AccountId}
    (inRange : D.toLedger.InRange now Q)
    (h : Spreading D.records x (flipSign active) level (some parent) fun k =>
      if k = .firstLine ∨ k = .byThree ∧ child.hasThree = true ∨ k = .team (.ofSize child.teamSize)
      then flipSign active else 0) :
    (update (some now) parent (countChild child active (flipSign active))).FailsFor D Q := by
  refine failsFor_update (R := Edit.counts none none) inRange
    (plain_countChild child active (flipSign active)) fun r hr => ?_
  obtain ⟨t, ht⟩ := Tallies.exists_shiftChild? fun k => (h.tallied.fits inRange.few hr k).2
  exact .checked_bind (by simp [ht])

/-- A count by three that is owed fails for no count. -/
theorem failsFor_countByThree {active : Bool} {grandparent : AccountId}
    (inRange : D.toLedger.InRange now Q)
    (h : Spreading D.records x (flipSign active) level (some grandparent) fun k =>
      if k = .byThree then flipSign active else 0) :
    (update (some now) grandparent (countByThree (flipSign active))).FailsFor D Q := by
  refine failsFor_update (R := Edit.counts none none) inRange
    (plain_countByThree (flipSign active)) fun r hr => ?_
  have hfits := (h.tallied.fits inRange.few hr .byThree).2
  rw [if_pos rfl] at hfits
  obtain ⟨t, ht⟩ := Tallies.exists_shiftByThree? hfits
  exact .checked_bind (by simp [ht])

/-- A team that is owed another class has been counted in its class, and moving it fails for no count. -/
theorem failsFor_reclassify {before after : Nat} {next : AccountId}
    (inRange : D.toLedger.InRange now Q)
    (h : Spreading D.records x delta level (some next) (Stride.leaves ⟨some next, some (before, after)⟩)) :
    (update (some now) next (reclassify before after)).FailsFor D Q := by
  refine failsFor_update (R := Edit.counts none none) inRange
    (plain_reclassify before after) fun r hr => ?_
  have hfits := fun k => h.tallied.fits inRange.few hr k
  have hleast : 0 ≤ (r.tallies.get (.team (.ofSize before))).toInt := by
    have := (hfits (.team (.ofSize before))).1
    simp only [Stride.leaves] at this
    split_ifs at this <;> omega
  obtain ⟨t, ht⟩ := Tallies.exists_moveTeam? hleast fun k => (hfits k).2
  exact .checked_bind (by simp [ht])

/-- Counting a flip in the generation it is owed to fails for no counter. -/
theorem failsFor_countDescendant {ancestor : AccountId} (inRange : D.toLedger.InRange now Q)
    (h : Spreading D.records x delta level none fun _ => 0) (hlevel : level < generationCount)
    (reached : ancestor? D.records level x = some ancestor) :
    (update (some now) ancestor (countDescendant level delta)).FailsFor D Q := by
  refine failsFor_update (R := Edit.counts none none) inRange
    (plain_countDescendant level delta) fun r hr => ?_
  obtain ⟨moved, hshift⟩ := h.counted.exists_shift hr reached (by rwa [h.full ancestor r hr])
    (activeAt_lt_size inRange.few ancestor level)
  exact .checked_bind (by simp [hshift])

/-- **The walk over the generations** fails for no count, level by level. What a stride leaves owed is paid
before the walk goes on. -/
theorem failsFor_countGenerations {start : Option AccountId} (inRange : D.toLedger.InRange now Q)
    (h : Spreading D.records x delta level none fun _ => 0)
    (reached : ancestor? D.records level x = start) (within : levels + level = generationCount) :
    (countGenerations (some now) delta levels level start).FailsFor D Q := by
  induction levels generalizing level start D with
  | zero => exact .done ()
  | succ levels ih =>
      cases start with
      | none => exact .done ()
      | some ancestor =>
          refine .bind (failsFor_countDescendant inRange h (by omega) reached) fun result D₁ hupdate => ?_
          have hrange₁ := inRange.walk (walk_update (P := Edit.counts (some now))
            (plain_countDescendant level delta) h.full hupdate)
          obtain ⟨rfl, -, -⟩ | ⟨stride, rfl, hstride, hnext⟩ :=
            spreading_of_countDescendant h reached hupdate
          · exact .done ()
          · have hclimb : ∀ D₂, stride.Corrects (some now) D₁ D₂ →
                (countGenerations (some now) delta levels (level + 1) stride.next).FailsFor D₂ Q := by
              intro D₂ hcorrects
              have hwalk := walk_corrects hstride.full hcorrects
              refine ih (hrange₁.walk hwalk) (spreading_of_corrects hstride hcorrects) ?_ (by omega)
              rw [ancestor?_congr (parentOf_walk hwalk), hnext]
            obtain ⟨_ | next, _ | ⟨before, after⟩⟩ := stride
            case some.some =>
                exact .bind (failsFor_reclassify hrange₁ hstride) fun v D₂ hmove => hclimb D₂ ⟨v, hmove⟩
            all_goals exact hclimb D₁ rfl

/-! #### Activity -/

/-- Flipping an account fails for no counter. -/
theorem failsFor_flipRecord {active : Bool} (h : Recounted D.records)
    (few : D.records.size < 2 ^ 63) :
    (update none a (flipRecord active (flipSign active))).FailsFor D Q := by
  refine .update h.full (plain_flipRecord active _) nofun fun r hr => ?_
  rw [flipRecord]
  split
  next => exact .done _
  next hflips =>
      have hfew : (D.records.insert a { r with active }).size < 2 ^ 63 := by
        rwa [SortedMap.size_insert hr]
      obtain ⟨moved, hshift⟩ := h.exists_shift hr hflips (activeAt_lt_size hfew a 0)
      exact .checked_bind (by simp [hshift])

/-- **Making an account active or inactive** fails for no count. -/
theorem failsFor_setActive {active : Bool} (inRange : D.toLedger.InRange now Q)
    (h : Recounted D.records) : (setActive (some now) a active).FailsFor D Q := by
  refine .bind (failsFor_flipRecord h inRange.few) fun flipped D₁ hflip => ?_
  cases hchild : flipped.join with
  | none => exact .done ()
  | some child =>
      obtain ⟨hspreading, hup⟩ := spreading_of_flipRecord h hflip hchild
      have hrange₁ := inRange.walk
        (walk_update (P := fun _ _ _ => True) (plain_flipRecord active _) h.full hflip)
      dsimp only
      cases hparent : child.parent with
      | none => exact .done ()
      | some parent =>
          rw [hparent] at hspreading hup
          refine .bind (failsFor_countChild hrange₁ hspreading) fun crossed D₂ hcount => ?_
          have hwalk₁ := walk_update (P := Edit.counts (some now)) (plain_countChild child active _)
            hspreading.full hcount
          have hcounted := spreading_of_countChild hspreading hcount
          have hclimb : ∀ D₃, Ripples (some now) active crossed.join D₂ D₃ →
              (countGenerations (some now) (flipSign active) maxDepth 1 (some parent)).FailsFor D₃ Q := by
            intro D₃ hripples
            have hwalk₂ := walk_ripples hcounted.full hripples
            refine failsFor_countGenerations ((hrange₁.walk hwalk₁).walk hwalk₂)
              (spreading_of_ripples hcounted hripples) ?_ rfl
            rw [ancestor?_congr ((parentOf_walk hwalk₂).trans (parentOf_walk hwalk₁)), hup]
          cases hcrossed : crossed.join with
          | none =>
              rw [hcrossed] at hclimb
              exact hclimb D₂ rfl
          | some grandparent =>
              rw [hcrossed] at hcounted hclimb
              exact .bind (failsFor_countByThree (hrange₁.walk hwalk₁) hcounted)
                fun v D₃ hripple => hclimb D₃ ⟨v, hripple⟩

/-! #### Team stakes -/

/-- **Raising the team stakes** can fail only for one that becomes too large: each comes to what is staked
below the ancestor, and the walk ends at a root. A sum of own stakes is never less than nothing. -/
theorem failsFor_raiseTeams {start : Option AccountId} (inRange : D.toLedger.InRange now Q)
    (trails : Trails D.records x delta level start)
    (ends : ancestor? D.records (level + bound) x = none)
    (large : ∀ b r, ReachesFrom D.records level x b → D.records.get? b = some r →
      (doubleWordSize : Int) ≤ r.teamStake.units + delta → Q "team delegation") :
    (raiseTeams now delta bound start).FailsFor D Q := by
  induction bound generalizing level start D with
  | zero =>
      cases start with
      | none => exact .done ()
      | some ancestor =>
          rw [Nat.add_zero, trails.reached] at ends
          contradiction
  | succ bound ih =>
      cases start with
      | none => exact .done ()
      | some ancestor =>
          have hplain := plain_addTeamStake now delta
          have hreaches : ReachesFrom D.records level x ancestor :=
            ⟨level, Nat.le_refl level, trails.reached⟩
          refine .bind (failsFor_update inRange hplain fun r hr => ?_) fun parent D₁ hupdate => ?_
          · refine .checked_bind fun hnone => large ancestor r hreaches hr ?_
            have hsum := trails.short ancestor r hr
            rw [if_pos hreaches] at hsum
            rw [Amount.shift?_eq_none_iff] at hnone
            rw [doubleWordSize_eq]
            omega
          · refine .announce_if fun D₂ hD₂ => ?_
            have hrecords₂ : D₂.records = D₁.records := congrArg Ledger.records hD₂
            have hwalk := walk_update hplain inRange.full hupdate
            have hrange₂ := inRange.walk hwalk
            rw [← hD₂] at hrange₂
            obtain ⟨-, rfl, -⟩ | ⟨r, b, r₁, D₀, s, t, hr, hchange, rfl, hrecords⟩ :=
              records_of_update hplain inRange.full hupdate
            · cases bound <;> exact .done ()
            · obtain ⟨rfl, rfl, stake, hstake, rfl⟩ := yields_addTeamStake hchange
              have hadv := trails.advance hr (Amount.shift?_eq_some_iff.mp hstake) s t
              have hup := parentOf_walk hwalk
              rw [← hrecords, ← hrecords₂] at hadv
              rw [← hrecords₂] at hup
              refine ih hrange₂ hadv ?_ fun c q hc hq => ?_
              · rw [ancestor?_congr hup, Nat.add_right_comm]
                exact ends
              · rw [ReachesFrom, ancestor?_congr hup, ← ReachesFrom] at hc
                obtain ⟨hreach, hne⟩ := (trails.forest.reachesFrom_succ_iff trails.reached).mp hc
                rw [hrecords₂, hrecords, SortedMap.get?_insert_of_ne _ _ hne] at hq
                exact large c q hreach hq

/-! #### Stake changes -/

/-- **A stake change on a sound forest** can fail only for the own stake, for a team stake that becomes
too large, or for the time of a notice. -/
theorem failsFor_changeStake (inRange : D.toLedger.InRange now Q) (sound : Sound D.records)
    (self : ∀ r, D.records.get? a = some r → r.selfStake.shift? delta = none → Q "self delegation")
    (large : ∀ b r, ReachesFrom D.records 1 a b → D.records.get? b = some r →
      (doubleWordSize : Int) ≤ r.teamStake.units + delta → Q "team delegation")
    (bounded : D.records.size ≤ bound) : (changeStake now a delta bound).FailsFor D Q := by
  have hplain : Plain (fun _ _ => True) (addSelfStake delta) := plain_addSelfStake delta
  refine .bind (failsFor_update inRange hplain fun r hr => .checked_bind (self r hr))
    fun result D₁ hupdate => ?_
  have hwalk := walk_update (P := fun _ _ _ => True) hplain inRange.full hupdate
  obtain ⟨-, rfl, -⟩ | ⟨r, b, r₁, D₀, s, t, hr, hchange, rfl, hrecords⟩ :=
    records_of_update hplain inRange.full hupdate
  · exact .done ()
  · obtain ⟨rfl, stake, hstake, rfl, rfl⟩ := yields_addSelfStake hchange
    dsimp only
    refine .announce_if fun D₂ hD₂ => ?_
    have hrange₂ := inRange.walk hwalk
    have hup := parentOf_walk hwalk
    rw [← hD₂] at hrange₂ hup
    rw [← show D₂.records = D₁.records from congrArg Ledger.records hD₂] at hrecords
    have hself : Recounted D₂.records := by
      rw [hrecords]
      exact sound.recounted.put hr _ rfl rfl rfl rfl
    have htrails : Trails D₂.records a delta 1 r.referrer := by
      rw [hrecords]
      exact sound.raised.trails sound.recounted.forest hr (Amount.shift?_eq_some_iff.mp hstake) s t
    have hraises : (raiseTeams now delta bound r.referrer).FailsFor D₂ Q := by
      refine failsFor_raiseTeams hrange₂ htrails ?_ fun c q hc hq => ?_
      · rw [ancestor?_congr hup]
        exact sound.recounted.forest.ancestor?_eq_none_of_size_le (by simp [hr]) (Nat.le_add_left_of_le bounded)
      · rw [ReachesFrom, ancestor?_congr hup, ← ReachesFrom] at hc
        have hne : c ≠ a := fun heq => sound.recounted.forest.not_reachesFrom_self 0 (heq ▸ hc)
        rw [hrecords, SortedMap.get?_insert_of_ne _ _ hne] at hq
        exact large c q hc hq
    refine .bind hraises fun _ D₃ hraise => ?_
    have hrange₃ := hrange₂.walk (walk_raiseTeams hrange₂.full hraise)
    split
    next => exact failsFor_setActive hrange₃ (recounted_of_raiseTeams hself hraise)
    next => exact .done ()

end Cascade

/-! ### Stores -/

namespace Roster

/-- **There is room for a stake change**: all that it has to tell can be told. -/
structure HasRoom (m : Roster) (p : Params) (now : Timestamp) (a : AccountId) (delta : Int) : Prop where
  /-- The new own stake is an amount. -/
  self : ∀ r, m.get? a = some r →
    0 ≤ (r.selfStake.units : Int) + delta ∧ (r.selfStake.units : Int) + delta < 2 ^ 128
  /-- No ancestor comes to a team stake too large for an amount. -/
  teams : ∀ g b r, ancestor? m (g + 1) a = some b → m.get? b = some r →
    (r.teamStake.units : Int) + delta < 2 ^ 128
  /-- The time of a notice can be told. -/
  notice : now.seconds.toNat + p.gracePeriod.toNat < 2 ^ 64

/-- **What there is no room for** in a stake change, by the name of the quantity. -/
inductive Exceeds (m : Roster) (p : Params) (now : Timestamp) (a : AccountId) (delta : Int) :
    String → Prop
  /-- The new own stake is no amount. -/
  | self {r : Record} (found : m.get? a = some r)
      (out : (r.selfStake.units : Int) + delta < 0 ∨ 2 ^ 128 ≤ (r.selfStake.units : Int) + delta) :
      Exceeds m p now a delta "self delegation"
  /-- An ancestor comes to a team stake too large for an amount. -/
  | team {g : Nat} {b : AccountId} {r : Record} (above : ancestor? m (g + 1) a = some b)
      (found : m.get? b = some r) (large : 2 ^ 128 ≤ (r.teamStake.units : Int) + delta) :
      Exceeds m p now a delta "team delegation"
  /-- The time of a notice cannot be told. -/
  | notice (late : 2 ^ 64 ≤ now.seconds.toNat + p.gracePeriod.toNat) :
      Exceeds m p now a delta "downgrade time"

variable {m : Roster} {p : Params} {now : Timestamp} {a : AccountId} {delta : Int} {quantity : String}

/-- Where there is room, nothing exceeds it. -/
theorem HasRoom.not_exceeds (h : m.HasRoom p now a delta) : ¬ m.Exceeds p now a delta quantity := by
  rintro (⟨found, out⟩ | ⟨above, found, large⟩ | late)
  · have := h.self _ found
    omega
  · have := h.teams _ _ _ above found
    omega
  · have := h.notice
    omega

/-- No count is among what there is no room for. -/
theorem Exceeds.ne_count (h : m.Exceeds p now a delta quantity) :
    quantity ≠ Cascade.counterName ∧ quantity ≠ Cascade.countName := by
  cases h <;> decide

/-- Only a gain makes a team stake too large. -/
theorem Exceeds.ne_team (h : m.Exceeds p now a delta quantity) (loss : delta ≤ 0) :
    quantity ≠ "team delegation" := by
  cases h with
  | self => decide
  | @team g b r above found large =>
      have := r.teamStake.units_lt
      rw [doubleWordSize_eq] at this
      omega
  | notice => decide

end Roster

/-- **What comes of stake changes** to a store that holds a forest, under parameters. -/
structure Store.TakesStakes (host : Host) (store : Store) (m : Roster) (p : Params) : Prop where
  /-- A stake change for which there is room succeeds. -/
  succeeds : ∀ now a delta, m.HasRoom p now a delta →
    (Turn.outcome host ⟨now, .changeStake a delta⟩ store).1 = .ok ()
  /-- Any other fails for a quantity there is no room for, if it fails. -/
  blames : ∀ now a delta e, (Turn.outcome host ⟨now, .changeStake a delta⟩ store).1 = .error e →
    ∃ quantity, e.quantity? = some quantity ∧ m.Exceeds p now a delta quantity
  /-- No stake change fails for a count. -/
  counts : ∀ now a delta e, (Turn.outcome host ⟨now, .changeStake a delta⟩ store).1 = .error e →
    e.quantity? ≠ some Cascade.counterName ∧ e.quantity? ≠ some Cascade.countName
  /-- A withdrawal never fails for a team stake. -/
  withdraws : ∀ now a delta e, delta ≤ 0 →
    (Turn.outcome host ⟨now, .changeStake a delta⟩ store).1 = .error e →
      e.quantity? ≠ some "team delegation"

/-- **What a stake change can fail for** in a world that keeps a sound forest, if no listener fails. What
goes well on the draft is carried out. -/
theorem World.Keeps.exceeds_of_run_changeStake {w w' : World} {L : Ledger} {host : Host}
    {now : Timestamp} {a : AccountId} {delta : Int} {e : Error} (quiet : host.Quiet)
    (unfailing : host.Unfailing) (h : w.Keeps L) (sound : Roster.Sound L.records)
    (few : L.records.size < 2 ^ 63)
    (hrun : w.run (Forest.changeStake host now a delta) = (.error e, w')) :
    ∃ quantity, e.quantity? = some quantity ∧
      L.records.Exceeds (L.params.getD .default) now a delta quantity := by
  have hfull := h.stored.full
  have hrange : L.InRange now (L.records.Exceeds (L.params.getD .default) now a delta) := by
    refine ⟨hfull, few, fun hlate => .notice ?_⟩
    by_contra! htold
    exact hlate ⟨_, if_pos htold⟩
  have hfails : (Cascade.changeStake now a delta w.store.size).FailsFor L.draft
      (L.records.Exceeds (L.params.getD .default) now a delta) := by
    refine Cascade.failsFor_changeStake hrange sound (fun r found hnone => ?_)
      (fun b r hreaches found hlarge => ?_) h.stored.size_records_le
    · exact .self found (Amount.shift?_eq_none_iff.mp hnone)
    · obtain ⟨j, hj, habove⟩ := hreaches
      obtain ⟨g, rfl⟩ := Nat.exists_eq_add_of_le' hj
      rw [doubleWordSize_eq] at hlarge
      exact .team habove found hlarge
  rw [World.run_changeStake] at hrun
  obtain ⟨_, D, hyields⟩ | ⟨e', D, hbreaks⟩ :=
    Cascade.exists_yields_or_breaks (Cascade.changeStake now a delta w.store.size) L.draft
  · have hwalk := Cascade.walk_changeStake hfull hyields
    obtain ⟨w₁, hok, -⟩ := h.run_commit quiet hyields (.inl unfailing) (hwalk.full hfull)
    obtain ⟨hresult, -⟩ := Prod.mk.inj (hok.symm.trans hrun)
    contradiction
  · obtain ⟨w₁, hfailed⟩ : ∃ w₁, w.run ((Cascade.changeStake now a delta w.store.size).commit host) =
        (.error e', w₁) := h.run_commit_of_breaks hbreaks
    obtain ⟨hresult, -⟩ := Prod.mk.inj (hfailed.symm.trans hrun)
    obtain rfl := Except.error.inj hresult
    exact hfails e' D hbreaks

/-- **What comes of stake changes** to a store that keeps a sound forest. -/
theorem Forest.takesStakes_of_keeps {host : Host} {store : Store} {L : Ledger} (quiet : host.Quiet)
    (unfailing : host.Unfailing) (keeps : (World.ofStore store).Keeps L)
    (sound : Roster.Sound L.records) (addressable : store.Addressable) :
    store.TakesStakes host L.records (L.params.getD .default) := by
  have few : L.records.size < 2 ^ 63 :=
    Nat.lt_of_le_of_lt keeps.stored.size_records_le addressable
  have hblames : ∀ now a delta e,
      (Turn.outcome host ⟨now, .changeStake a delta⟩ store).1 = .error e → ∃ quantity,
        e.quantity? = some quantity ∧
          L.records.Exceeds (L.params.getD .default) now a delta quantity := by
    intro now a delta e failed
    rw [Turn.outcome, World.fst_transact keeps.free] at failed
    exact keeps.branch.exceeds_of_run_changeStake quiet unfailing sound few (Prod.ext failed rfl)
  refine ⟨fun now a delta room => ?_, hblames, fun now a delta e failed => ?_,
    fun now a delta e loss failed => ?_⟩
  · cases hresult : (Turn.outcome host ⟨now, .changeStake a delta⟩ store).1 with
    | ok => rfl
    | error e =>
        obtain ⟨quantity, -, hexceeds⟩ := hblames now a delta e hresult
        exact absurd hexceeds room.not_exceeds
  · obtain ⟨quantity, hquantity, hexceeds⟩ := hblames now a delta e failed
    rw [hquantity, ne_eq, ne_eq, Option.some.injEq, Option.some.injEq]
    exact hexceeds.ne_count
  · obtain ⟨quantity, hquantity, hexceeds⟩ := hblames now a delta e failed
    rw [hquantity, ne_eq, Option.some.injEq]
    exact hexceeds.ne_team loss

/-- **Stake changes in range succeed after every history** in which activity is left to the stakes, as
long as no listener fails. The others fail for what is out of range, and never for a count. -/
theorem Forest.takesStakes_after {host : Host} (quiet : host.Quiet) (unfailing : host.Unfailing)
    {turns : List Turn} (leaves : ∀ turn ∈ turns, turn.operation.LeavesActivity)
    (addressable : (Forest.after host turns).Addressable) :
    ∃ m p, (Forest.after host turns).Holds m ∧
      (World.ofStore (Forest.after host turns)).run Program.params =
        (.ok p, World.ofStore (Forest.after host turns)) ∧
      (Forest.after host turns).TakesStakes host m p := by
  obtain ⟨L, hkeeps, hsound⟩ := exists_sound quiet leaves
  exact ⟨L.records, L.params.getD .default, holds_of_keeps hkeeps, hkeeps.run_params,
    takesStakes_of_keeps quiet unfailing hkeeps hsound addressable⟩

/-- After the small history stake changes in range succeed; the referral can give up all its stake, and
one unit more is out of range. -/
theorem Forest.takesStakes_after_small :
    (Host.standalone.Quiet ∧ Host.standalone.Unfailing ∧
      (∀ turn ∈ SmallHistory.turns, turn.operation.LeavesActivity) ∧
      (Forest.after Host.standalone SmallHistory.turns).Addressable) ∧
    (∃ m p, (Forest.after Host.standalone SmallHistory.turns).Holds m ∧
      (World.ofStore (Forest.after Host.standalone SmallHistory.turns)).run Program.params =
        (.ok p, World.ofStore (Forest.after Host.standalone SmallHistory.turns)) ∧
      (Forest.after Host.standalone SmallHistory.turns).TakesStakes Host.standalone m p) ∧
    (Turn.outcome Host.standalone ⟨⟨1000⟩, .changeStake SmallHistory.leaf (-100000000)⟩
      (Forest.after Host.standalone SmallHistory.turns)).1 = .ok () ∧
    (Turn.outcome Host.standalone ⟨⟨1000⟩, .changeStake SmallHistory.leaf (-100000001)⟩
      (Forest.after Host.standalone SmallHistory.turns)).1 =
        .error (.update SmallHistory.leaf .mutate (.overflow "self delegation")) := by
  have haddressable : (Forest.after Host.standalone SmallHistory.turns).Addressable := by
    decide +kernel
  exact ⟨⟨Host.quiet_standalone, Host.unfailing_standalone, SmallHistory.leavesActivity, haddressable⟩,
    takesStakes_after Host.quiet_standalone Host.unfailing_standalone SmallHistory.leavesActivity
      haddressable, by decide +kernel, by decide +kernel⟩

end ReferralForest

import ReferralForest.Proofs.Forest.Activity
import ReferralForest.Proofs.Forest.Stakes

/-!
# Comparing Forests

Two forests of the same lineage are compared by what their accounts hold. Whatever is recomputed from
the whole forest — active accounts at a generation, active referrals, stakes below an account — is no
more where everybody holds no more. So what fits into the counters and amounts of the one forest fits
into those of the other, and forests in which everybody holds the same are the same, up to tiers and
schedules.

## Main definitions

* `Roster.Sound` — everything recomputed agrees with what the records say.
* `Roster.Below` — the same lineage, and nobody holds more.
* `Roster.Gained` — the same accounts in the same places, with own stakes moved by what they gained.

## Main statements

* `Roster.Below.activeAt_lt`, `Roster.Below.childrenFor_le`, `Roster.Below.stakeFrom_lt` — what is
  counted below a sound forest fits.
* `Roster.Sound.eq_update` — holdings decide everything but tiers and schedules.
* `Roster.Sound.changeStake`, `Roster.Sound.gained_of_changeStake` — what a stake change keeps, and what
  it gains.
-/

namespace ReferralForest

/-- Where an account stands, and what it holds of its own. -/
def Record.origin (r : Record) : Option AccountId × Amount := (r.referrer, r.selfStake)

/-- An account holds no more than another: less stake, and it is active only if the other is. -/
def Record.Within (r q : Record) : Prop :=
  (r.active = true → q.active = true) ∧ r.selfStake.units ≤ q.selfStake.units

/-- Counts of every kind decide the tallies. -/
theorem Tallies.ext_get {t t' : Tallies} (h : ∀ k, (t.get k).toInt = (t'.get k).toInt) : t = t' := by
  have hkind : ∀ k, t.get k = t'.get k := fun k => Int64.toInt_inj.mp (h k)
  obtain ⟨_, _, _, _, _, _, _⟩ := t
  obtain ⟨_, _, _, _, _, _, _⟩ := t'
  simp only [Tallies.mk.injEq]
  exact ⟨hkind .firstLine, hkind .byThree, hkind (.team .below15), hkind (.team .below50),
    hkind (.team .below100), hkind (.team .below300), hkind (.team .rest)⟩

namespace Roster

/-- **A sound forest**: the counts, the team stakes and the flags in the records are what they ought to
be. -/
structure Sound (m : Roster) : Prop where
  /-- The counts are right. -/
  recounted : Recounted m
  /-- The team stakes are right. -/
  raised : Raised m
  /-- The active accounts are those with the stake for it. -/
  activeByStake : ActiveByStake m

/-- **One forest lies below another** if it has the same lineage and nobody in it holds more. -/
structure Below (m u : Roster) : Prop where
  /-- Everybody has the same referrer in both. -/
  lineage : parentOf m = parentOf u
  /-- Nobody holds more. -/
  within : ∀ a r, m.get? a = some r → ∃ q, u.get? a = some q ∧ r.Within q

variable {m m' u : Roster} {a b : AccountId} {r r' q : Record} {g : Nat} {k : TallyKind}

namespace Below

/-- Where nobody holds more, no more accounts are active at a generation. -/
theorem activeAt_le (h : Below m u) (a : AccountId) (g : Nat) : activeAt m a g ≤ activeAt u a g := by
  refine SortedMap.count_le_count_of_map fun b r hr => ?_
  obtain ⟨q, hq, hactive, -⟩ := h.within b r hr
  refine ⟨q, hq, fun hcounts => ?_⟩
  rw [Bool.and_eq_true, decide_eq_true_eq] at hcounts ⊢
  rw [← ancestor?_congr h.lineage]
  exact ⟨hactive hcounts.1, hcounts.2⟩

/-- Where nobody holds more, no more referrals are active. -/
theorem activeChildren_le (h : Below m u) (a : AccountId) (p : AccountId → Bool) :
    activeChildren m a p ≤ activeChildren u a p := by
  refine SortedMap.count_le_count_of_map fun b r hr => ?_
  obtain ⟨q, hq, hactive, -⟩ := h.within b r hr
  refine ⟨q, hq, fun hcounts => ?_⟩
  have hreferrer : q.referrer = r.referrer := by
    rw [← parentOf_of_get? hq, ← parentOf_of_get? hr, h.lineage]
  simp only [Bool.and_eq_true, decide_eq_true_eq] at hcounts ⊢
  exact ⟨⟨hactive hcounts.1.1, hreferrer.trans hcounts.1.2⟩, hcounts.2⟩

/-- Where nobody holds more, no more is staked below an account. -/
theorem stakeFrom_le (h : Below m u) (level : Nat) (a : AccountId) :
    stakeFrom m level a ≤ stakeFrom u level a := by
  refine SortedMap.total_le_total fun b r hr => ?_
  obtain ⟨q, hq, -, hstake⟩ := h.within b r hr
  refine ⟨q, hq, ?_⟩
  rw [ReachesFrom, ReachesFrom, ancestor?_congr h.lineage]
  split_ifs
  · exact hstake
  · exact Nat.le_refl _

/-- Writing a record that holds no more keeps a forest below another. -/
theorem put (h : Below m u) (found : m.get? a = some r) (same : r'.referrer = r.referrer)
    (within : ∀ q, u.get? a = some q → r'.Within q) : Below (m.insert a r') u where
  lineage := (parentOf_insert found same).trans h.lineage
  within b s hs := by
    classical
    rw [SortedMap.get?_insert] at hs
    split at hs
    next hb =>
        obtain rfl := Option.some.inj hs
        obtain ⟨q, hq, -⟩ := h.within a r found
        rw [hb]
        exact ⟨q, hq, within q hq⟩
    next => exact h.within b s hs

/-- **The counters of a forest below a sound one** have room for its active accounts. -/
theorem activeAt_lt (h : Below m u) (sound : Sound u) (found : m.get? a = some r)
    (hg : g < generationCount) : activeAt m a g < UInt64.size := by
  obtain ⟨q, hq, -⟩ := h.within a r found
  have hlength : g < q.generations.length := by rwa [sound.recounted.full a q hq]
  have hcount := sound.recounted.counted a q g _ hq (List.getElem?_eq_getElem hlength)
  have hle := h.activeAt_le a g
  have hlt := q.generations[g].toNat_lt
  exact Nat.lt_of_le_of_lt (hcount ▸ hle) hlt

/-- **The tallies of a forest below a sound one** have room for its active referrals. -/
theorem childrenFor_le (h : Below m u) (sound : Sound u) (found : m.get? a = some r) (k : TallyKind) :
    (childrenFor m a k : Int) ≤ Int64.maxValue.toInt := by
  obtain ⟨q, hq, -⟩ := h.within a r found
  have hkind : childrenFor m a k ≤ activeChildren m a fun _ => true := by
    refine SortedMap.count_le_count fun b s hs => ?_
    simp only [Bool.and_eq_true] at hs ⊢
    exact ⟨⟨hs.1.1, hs.2⟩, trivial⟩
  have hchildren := h.activeChildren_le a fun _ => true
  have hline := sound.recounted.tallied.tally_eq sound.recounted.counted sound.recounted.full hq
    .firstLine
  have hmax := Int64.toInt_le (q.tallies.get .firstLine)
  rw [hline, tally] at hmax
  have hmaxValue : Int64.maxValue.toInt = 2 ^ 63 - 1 := by decide
  omega

/-- **The team stakes of a forest below a sound one** have room for what is staked. -/
theorem stakeFrom_lt (h : Below m u) (sound : Sound u) (found : m.get? a = some r) :
    stakeFrom m 1 a < doubleWordSize := by
  obtain ⟨q, hq, -⟩ := h.within a r found
  have hle := h.stakeFrom_le 1 a
  rw [← sound.raised a q hq] at hle
  exact Nat.lt_of_le_of_lt hle q.teamStake.units_lt

end Below

/-- Holdings decide activity. -/
theorem Sound.active_eq (h : Sound m) (h' : Sound m') (found : m.get? a = some r)
    (found' : m'.get? a = some r') (same : r'.selfStake = r.selfStake) : r'.active = r.active := by
  rw [h.activeByStake a r found, h'.activeByStake a r' found', same]

/-- Who holds no more stake in a sound forest holds no more. -/
theorem Sound.within (h : Sound m) (h' : Sound m') (found : m.get? a = some r)
    (found' : m'.get? a = some r') (le : r.selfStake.units ≤ r'.selfStake.units) : r.Within r' := by
  refine ⟨?_, le⟩
  rw [h.activeByStake a r found, h'.activeByStake a r' found', decide_eq_true_eq, decide_eq_true_eq]
  exact fun hactive => Nat.le_trans hactive le

/-- Forests whose accounts have the same origins have the same lineage. -/
theorem parentOf_eq_of_origin
    (same : ∀ a, (m.get? a).map Record.origin = (m'.get? a).map Record.origin) :
    parentOf m = parentOf m' := by
  funext a
  have hbind : ∀ o : Option Record, o.bind Record.referrer = (o.map Record.origin).bind Prod.fst := by
    intro o
    cases o <;> rfl
  rw [parentOf, parentOf, hbind, hbind, same]

/-- Sound forests whose accounts have the same origins lie below each other. -/
theorem Sound.below (h : Sound m) (h' : Sound m')
    (same : ∀ a, (m.get? a).map Record.origin = (m'.get? a).map Record.origin) : Below m m' where
  lineage := parentOf_eq_of_origin same
  within a r hr := by
    have hsame := same a
    rw [hr, Option.map_some] at hsame
    obtain ⟨r', hr', horigin⟩ := Option.map_eq_some_iff.mp hsame.symm
    refine ⟨r', hr', h.within h' hr hr' ?_⟩
    rw [(Prod.mk.inj horigin).2]

/-- **Origins decide everything but tiers and schedules**: a record of a sound forest is that of any
other sound forest whose accounts have the same origins. -/
theorem Sound.eq_update (h : Sound m) (h' : Sound m')
    (same : ∀ a, (m.get? a).map Record.origin = (m'.get? a).map Record.origin)
    (found : m.get? a = some r) (found' : m'.get? a = some r') :
    r' = { r with status := r'.status, downgradeAt := r'.downgradeAt } := by
  have hbelow := h.below h' same
  have habove := h'.below h fun b => (same b).symm
  have hactiveAt : activeAt m = activeAt m' := by
    funext b g
    exact Nat.le_antisymm (hbelow.activeAt_le b g) (habove.activeAt_le b g)
  have hchildren : activeChildren m = activeChildren m' := by
    funext b p
    exact Nat.le_antisymm (hbelow.activeChildren_le b p) (habove.activeChildren_le b p)
  have hstakes : stakeFrom m 1 a = stakeFrom m' 1 a :=
    Nat.le_antisymm (hbelow.stakeFrom_le 1 a) (habove.stakeFrom_le 1 a)
  have horigin : r.origin = r'.origin := by
    have hsame := same a
    rw [found, found'] at hsame
    exact Option.some.inj hsame
  obtain ⟨hreferrer, hself⟩ := Prod.mk.inj horigin
  have hactive := h.active_eq h' found found' hself.symm
  have hteam : r'.teamStake = r.teamStake := by
    rw [Amount.ext_iff, h.raised a r found, h'.raised a r' found', hstakes]
  have hgenerations : r'.generations = r.generations := by
    have hmap := h.recounted.counted.generations_eq h.recounted.full found
    rw [hactiveAt, ← h'.recounted.counted.generations_eq h'.recounted.full found'] at hmap
    exact (List.map_injective_iff.mpr (fun _ _ => UInt64.toNat_inj.mp) hmap).symm
  have htallies : r'.tallies = r.tallies := by
    refine Tallies.ext_get fun k => ?_
    rw [h.recounted.tallied.tally_eq h.recounted.counted h.recounted.full found,
      h'.recounted.tallied.tally_eq h'.recounted.counted h'.recounted.full found']
    have hteams : activeTeam m = activeTeam m' := by
      funext b
      rw [activeTeam, activeTeam, hactiveAt]
    cases k <;> simp only [tally, hchildren, hteams]
  obtain ⟨status, referrer, active, selfStake, teamStake, generations, tallies, downgradeAt⟩ := r'
  dsimp only at hreferrer hself hactive hteam hgenerations htallies ⊢
  rw [← hreferrer, hactive, ← hself, hteam, hgenerations, htallies]

/-! ### Gains -/

/-- **What the accounts have gained** from one forest to another: everybody is where they were, and own
stakes have moved by the gains. -/
def Gained (m m' : Roster) (gain : AccountId → Int) : Prop :=
  ∀ a, ((m'.get? a).map fun r => (r.referrer, (r.selfStake.units : Int))) =
    (m.get? a).map fun r => (r.referrer, r.selfStake.units + gain a)

namespace Gained

variable {m'' : Roster} {gain gain' : AccountId → Int}

/-- Where nothing happens nobody gains anything. -/
theorem refl (m : Roster) : Gained m m fun _ => 0 := by
  intro a
  simp

/-- What is gained in two parts adds up. -/
theorem trans (h : Gained m m' gain) (h' : Gained m' m'' gain') :
    Gained m m'' fun a => gain a + gain' a := by
  intro a
  have hfirst := h a
  rw [h' a]
  cases hr' : m'.get? a with
  | none =>
      rw [hr', Option.map_none, eq_comm, Option.map_eq_none_iff] at hfirst
      rw [hfirst]
      rfl
  | some r' =>
      rw [hr', Option.map_some, eq_comm] at hfirst
      obtain ⟨r, hr, heq⟩ := Option.map_eq_some_iff.mp hfirst
      obtain ⟨hreferrer, hstake⟩ := Prod.mk.inj heq
      rw [hr, Option.map_some, Option.map_some, ← hreferrer, ← hstake, Int.add_assoc]

/-- **Equal gains lead to equal origins.** -/
theorem origin_eq (h : Gained m m' gain) (h' : Gained m m'' gain) (a : AccountId) :
    (m'.get? a).map Record.origin = (m''.get? a).map Record.origin := by
  have hsame := (h a).trans (h' a).symm
  have hinjective : Function.Injective
      fun o : Option AccountId × Amount => (o.1, (o.2.units : Int)) := by
    rintro ⟨p, x⟩ ⟨q, y⟩ heq
    obtain ⟨hp, hunits⟩ := Prod.mk.inj heq
    exact Prod.ext hp (Amount.ext (Int.natCast_inj.mp hunits))
  refine Option.map_injective hinjective ?_
  rw [Option.map_map, Option.map_map]
  exact hsame

/-- A record before and after. -/
theorem exists_of_get? (h : Gained m m' gain) (found : m.get? a = some r) :
    ∃ r', m'.get? a = some r' ∧ r'.referrer = r.referrer ∧
      (r'.selfStake.units : Int) = r.selfStake.units + gain a := by
  have hsame := h a
  rw [found, Option.map_some] at hsame
  obtain ⟨r', hr', heq⟩ := Option.map_eq_some_iff.mp hsame
  exact ⟨r', hr', Prod.mk.inj heq⟩

end Gained

/-- The stakes of a sound forest are right. -/
theorem Sound.staked (h : Sound m) : Staked m fun a => selfUnits m a :=
  ⟨h.recounted.full, h.recounted.forest, fun _ => rfl, h.raised⟩

/-- The empty forest is sound. -/
theorem Sound.empty : Sound .empty :=
  ⟨.empty, Staked.empty.raised, .empty⟩

/-- **A stake change keeps a forest sound.** -/
theorem Sound.changeStake {D D' : Draft} {now : Timestamp} {delta : Int} {bound : Nat} {t : Unit}
    (h : Sound D.records) (hcourse : (Cascade.changeStake now a delta bound).Yields D t D') :
    Sound D'.records :=
  ⟨Cascade.recounted_of_changeStake h.recounted hcourse,
    (Cascade.staked_of_changeStake h.staked hcourse).raised,
    Cascade.activeByStake_of_changeStake h.recounted.full h.activeByStake hcourse⟩

/-- **A stake change** is gained by the account, and by nobody else. -/
theorem Sound.gained_of_changeStake {D D' : Draft} {now : Timestamp} {delta : Int} {bound : Nat}
    {t : Unit} (h : Sound D.records)
    (hcourse : (Cascade.changeStake now a delta bound).Yields D t D') :
    Gained D.records D'.records fun b => if b = a then delta else 0 := by
  have hself := (Cascade.staked_of_changeStake h.staked hcourse).self
  have hwalk := Cascade.walk_changeStake h.recounted.full hcourse
  intro b
  have hreferrer := hwalk.map_referrer_eq b
  have hunits := hself b
  cases hr : D.records.get? b with
  | none =>
      rw [hr, Option.map_none, Option.map_eq_none_iff] at hreferrer
      rw [hreferrer]
      rfl
  | some r =>
      rw [hr, Option.map_some] at hreferrer
      obtain ⟨r', hr', heq⟩ := Option.map_eq_some_iff.mp hreferrer
      rw [selfUnits_of_get? hr', selfUnits_of_get? hr] at hunits
      have hgain : (r'.selfStake.units : Int) = r.selfStake.units + if b = a then delta else 0 := by
        rw [hunits]
        by_cases hb : b = a
        · rw [if_pos ⟨hb, by rw [← hb, hr]; rfl⟩, if_pos hb]
        · rw [if_neg fun hand => hb hand.1, if_neg hb]
      rw [hr', Option.map_some, Option.map_some, heq, hgain]

end Roster

end ReferralForest

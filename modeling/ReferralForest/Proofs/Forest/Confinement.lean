import ReferralForest.Proofs.Cascade.Locality
import ReferralForest.Proofs.Forest.Compare

/-!
# How Far a Stake Change Reaches

A stake change of an account is felt at the account and above it. Every ancestor, however far up, has its
team stake moved by the difference. If the change flips the activity of the account, one counter of each
of the nearest ancestors moves as well, and the tallies of those whose first line, or whose first line's
first line, or whose first line's teams are concerned; beyond the depth of counting nothing moves but the
team stake and what depends on it.

What an ancestor's record says after the change is read off the recounts of the two forests, which
differ in the stake and the activity of one account.

## Main definitions

* `Roster.Flips` — two forests that differ in the activity of one account.
* `Record.Reached` — what a stake change so many levels below does to a record.
* `Store.Confines` — a store whose stake changes reach no further than that.

## Main statements

* `Roster.Flips.activeAt_eq_add` — a flip moves the count of one generation for each ancestor.
* `Roster.Flips.tally_byThree`, `Roster.Flips.tally_team` — which tallies a flip can move.
* `Forest.confines_after` — every store of a history confines its stake changes.
-/

namespace ReferralForest

/-- Where an account stands, and whether it is active. -/
def Record.seat (r : Record) : Option AccountId × Bool := (r.referrer, r.active)

/-- The number of active referrals with a team of any size. -/
def Tallies.teams (t : Tallies) : Int := (TeamClass.all.map fun c => (t.get (.team c)).toInt).sum

namespace Roster

variable {m m' : Roster} {a b : AccountId} {q q' r r' : Record} {d : Nat}

/-! ### What a recount says -/

/-- Every active referral has a team of one size class. -/
theorem sum_tally_team (m : Roster) (a : AccountId) :
    (TeamClass.all.map fun c => (tally m a (.team c) : Int)).sum = tally m a .firstLine := by
  have hsum : (TeamClass.all.map fun c => tally m a (.team c)).sum = tally m a .firstLine := by
    simp only [TeamClass.all, List.map_cons, List.map_nil, List.sum_cons, List.sum_nil, Nat.add_zero,
      tally, activeChildren, SortedMap.count_eq_total, ← SortedMap.total_add]
    refine SortedMap.total_congr fun b r _ => ?_
    cases TeamClass.ofSize (activeTeam m b) <;> simp
  rw [← hsum, Nat.cast_list_sum, List.map_map]
  rfl

namespace Recounted

/-- The counters of a record, one by one. -/
theorem map_getElem?_generations (h : Recounted m) (found : m.get? b = some r) (g : Nat) :
    r.generations[g]?.map UInt64.toNat =
      if g < generationCount then some (activeAt m b g) else none := by
  rw [← List.getElem?_map, h.counted.generations_eq h.full found, List.getElem?_map]
  split
  next hg => rw [List.getElem?_range hg, Option.map_some]
  next hg => rw [List.getElem?_eq_none (by rw [List.length_range]; omega), Option.map_none]

/-- The teams of a record are those of its active referrals. -/
theorem teams_eq (h : Recounted m) (found : m.get? b = some r) :
    r.tallies.teams = tally m b .firstLine := by
  rw [← sum_tally_team]
  exact congrArg List.sum <| List.map_congr_left fun c _ =>
    h.tallied.tally_eq h.counted h.full found (.team c)

/-- A tally that is the same by two recounts is the same in the records. -/
theorem get_tallies_eq (h : Recounted m) (h' : Recounted m') (found : m.get? b = some r)
    (found' : m'.get? b = some r') {k : TallyKind} (same : tally m' b k = tally m b k) :
    r'.tallies.get k = r.tallies.get k := by
  rw [← Int64.toInt_inj, h'.tallied.tally_eq h'.counted h'.full found',
    h.tallied.tally_eq h.counted h.full found, same]

end Recounted

/-- **An account and an ancestor of it** are two accounts of the forest. -/
theorem IsForest.exists_get?_of_ancestor? (h : IsForest m) (hd : 1 ≤ d)
    (above : ancestor? m d a = some b) : b ≠ a ∧ (∃ q, m.get? a = some q) ∧ ∃ r, m.get? b = some r := by
  obtain ⟨e, rfl⟩ := Nat.exists_eq_add_of_le' hd
  refine ⟨fun hb => h.ancestor?_ne_self e (hb ▸ above), ?_, ?_⟩
  · refine Option.ne_none_iff_exists'.mp fun hnone => ?_
    rw [ancestor?_eq_none_of_get? ancestor?_zero hnone hd] at above
    contradiction
  · rw [ancestor?_succ] at above
    obtain ⟨c, -, hc⟩ := Option.bind_eq_some_iff.mp above
    exact Option.ne_none_iff_exists'.mp (h.closed c b hc)

/-! ### A flip in a forest -/

/-- **Two forests that differ in the activity of one account**, if in anything that is counted. -/
structure Flips (m m' : Roster) (a : AccountId) (q q' : Record) : Prop where
  /-- The record of the account before. -/
  before : m.get? a = some q
  /-- Its record after. -/
  after : m'.get? a = some q'
  /-- It has stayed in its place. -/
  place : q'.referrer = q.referrer
  /-- The others have stayed in their places, as active as they were. -/
  others : ∀ b, b ≠ a → (m'.get? b).map Record.seat = (m.get? b).map Record.seat

namespace Flips

/-- As far as places and activity go, the account's record has been written with its new activity. -/
theorem seat_eq (h : Flips m m' a q q') (b : AccountId) : (m'.get? b).map Record.seat =
    ((m.insert a { q with active := q'.active }).get? b).map Record.seat := by
  classical
  rw [SortedMap.get?_insert]
  split
  next hb => rw [hb, h.after, Option.map_some, Record.seat, h.place]; rfl
  next hb => exact h.others b hb

/-- Nobody has moved. -/
theorem parentOf_eq (h : Flips m m' a q q') : parentOf m' = parentOf m := by
  have hplaces : parentOf (m.insert a { q with active := q'.active }) = parentOf m :=
    parentOf_insert h.before rfl
  have hreferrer : ∀ o : Option Record, o.bind Record.referrer = (o.map Record.seat).bind Prod.fst := by
    intro o
    cases o <;> rfl
  rw [← hplaces]
  funext b
  rw [parentOf, parentOf, hreferrer, hreferrer, h.seat_eq]

/-- **A flip is felt** by the ancestor of the account at a generation, if the account has flipped. -/
def FeltAt (_ : Flips m m' a q q') (g : Nat) (b : AccountId) : Prop :=
  q.active ≠ q'.active ∧ ancestor? m g a = some b

/-- Who feels a flip at a generation has a referrer that feels it at the next one. -/
theorem FeltAt.parent (h : Flips m m' a q q') {g : Nat} {c : AccountId} (felt : h.FeltAt g c)
    (hc : parentOf m c = some b) : h.FeltAt (g + 1) b :=
  ⟨felt.1, by rw [ancestor?_succ, felt.2, Option.bind_some, hc]⟩

open Classical in
/-- **A flip moves the count of active accounts** at a generation by its sign, below the ancestor
there. -/
theorem activeAt_eq_add (h : Flips m m' a q q') (b : AccountId) (g : Nat) :
    (activeAt m' b g : Int) =
      activeAt m b g + if h.FeltAt g b then Cascade.flipSign q'.active else 0 := by
  let written := m.insert a { q with active := q'.active }
  have hplaces : ancestor? m' = ancestor? m := ancestor?_congr h.parentOf_eq
  have hplaces' : ancestor? written = ancestor? m := ancestor?_insert h.before rfl
  have hwritten : activeAt m' b g = activeAt written b g := by
    rw [activeAt, activeAt, hplaces, hplaces']
    exact SortedMap.count_eq_of_map h.seat_eq fun c s => s.2 && ancestor? m g c = some b
  have hmoved := activeAt_insert h.before { q with active := q'.active } rfl b g
  rw [← hwritten] at hmoved
  by_cases habove : ancestor? m g a = some b
  · cases hq : q.active <;> cases hq' : q'.active <;>
      simp [FeltAt, hq, hq', habove, Cascade.flipSign] at hmoved ⊢ <;> omega
  · simpa [FeltAt, habove] using hmoved

/-- Where a flip is not felt, the count of a generation is as before. -/
theorem activeAt_eq (h : Flips m m' a q q') {g : Nat} (far : ¬ h.FeltAt g b) :
    activeAt m' b g = activeAt m b g := by
  have hmoved := h.activeAt_eq_add b g
  rw [if_neg far, Int.add_zero] at hmoved
  exact Int.natCast_inj.mp hmoved

/-- Where a flip is not felt within a team, the team is as before. -/
theorem activeTeam_eq (h : Flips m m' a q q')
    (far : ∀ g, 1 ≤ g → g < maxDepth → ¬ h.FeltAt g b) : activeTeam m' b = activeTeam m b := by
  rw [activeTeam, activeTeam]
  refine congrArg List.sum (List.map_congr_left fun g hg => h.activeAt_eq ?_)
  obtain ⟨hfirst, hlast⟩ := List.mem_range'_1.mp hg
  exact far g hfirst hlast

/-- Where a flip is not felt in the first line, as many referrals pass a test as before, if the test
says the same of them. -/
theorem activeChildren_eq (h : Flips m m' a q q') {p p' : AccountId → Bool} (far : ¬ h.FeltAt 1 b)
    (same : ∀ c, parentOf m c = some b → p' c = p c) :
    activeChildren m' b p' = activeChildren m b p := by
  have htests : activeChildren m' b p' = activeChildren m' b p := by
    refine SortedMap.count_congr fun c r hc => ?_
    by_cases hreferrer : r.referrer = some b
    · rw [same c (by rw [← h.parentOf_eq, parentOf_of_get? hc, hreferrer])]
    · simp [hreferrer]
  have hwritten : activeChildren m' b p =
      activeChildren (m.insert a { q with active := q'.active }) b p :=
    SortedMap.count_eq_of_map h.seat_eq fun c s => s.2 && s.1 = some b && p c
  have hmoved := m.count_insert a { q with active := q'.active } fun c s =>
    s.active && s.referrer = some b && p c
  rw [FeltAt, ancestor?_one, parentOf_of_get? h.before, not_and_or, not_not] at far
  rw [h.before, Option.map_some, Option.getD_some] at hmoved
  rw [htests, hwritten, activeChildren, activeChildren]
  obtain hsame | hother := far
  · rw [← hsame] at hmoved ⊢
    exact Nat.add_right_cancel hmoved
  · simpa [hother] using hmoved

/-- Where a flip is not felt in the first line, the active referrals are as before. -/
theorem tally_firstLine (h : Flips m m' a q q') (far : ¬ h.FeltAt 1 b) :
    tally m' b .firstLine = tally m b .firstLine :=
  h.activeChildren_eq far fun _ _ => rfl

/-- **The tally by three** is as before where a flip is felt neither in the first line nor in the
first lines of that. -/
theorem tally_byThree (h : Flips m m' a q q') (far : ¬ h.FeltAt 1 b) (far' : ¬ h.FeltAt 2 b) :
    tally m' b .byThree = tally m b .byThree := by
  refine h.activeChildren_eq far fun c hc => ?_
  rw [h.activeChildren_eq (fun felt => far' (felt.parent h hc)) fun _ _ => rfl]

/-- **The tallies of teams** are as before where a flip is not felt within reach. -/
theorem tally_team (h : Flips m m' a q q') (far : ∀ g, 1 ≤ g → g ≤ maxDepth → ¬ h.FeltAt g b)
    (c : TeamClass) : tally m' b (.team c) = tally m b (.team c) := by
  refine h.activeChildren_eq (far 1 le_rfl (by decide)) fun e he => ?_
  rw [h.activeTeam_eq fun g _ hlast felt => far (g + 1) (Nat.le_add_left 1 g) hlast (felt.parent h he)]

/-- Where a flip is not felt within reach, all tallies are as before. -/
theorem tally_eq (h : Flips m m' a q q') (far : ∀ g, 1 ≤ g → g ≤ maxDepth → ¬ h.FeltAt g b)
    (k : TallyKind) : tally m' b k = tally m b k := by
  have hfirst := far 1 le_rfl (by decide)
  cases k with
  | firstLine => exact h.tally_firstLine hfirst
  | byThree => exact h.tally_byThree hfirst (far 2 (by decide) (by decide))
  | team c => exact h.tally_team far c

/-- Where a flip is not felt, the counters of a record are as before. -/
theorem generations_eq (h : Flips m m' a q q') (counts : Recounted m) (counts' : Recounted m')
    (found : m.get? b = some r) (found' : m'.get? b = some r')
    (far : ∀ g, g < generationCount → ¬ h.FeltAt g b) : r'.generations = r.generations := by
  refine List.ext_getElem? fun g => Option.map_injective (fun _ _ => UInt64.toNat_inj.mp) ?_
  rw [counts'.map_getElem?_generations found', counts.map_getElem?_generations found]
  split
  next hg => rw [h.activeAt_eq (far g hg)]
  next => rfl

/-- **A flip that is felt at one generation** moves the counter of that generation by its sign. -/
theorem exists_generations_eq_set (h : Flips m m' a q q') (counts : Recounted m)
    (counts' : Recounted m') (found : m.get? b = some r) (found' : m'.get? b = some r')
    (felt : h.FeltAt d b) (only : ∀ g, h.FeltAt g b → g = d) (reached : d < generationCount) :
    ∃ n n' : UInt64, r.generations[d]? = some n ∧
      (n'.toNat : Int) = n.toNat + Cascade.flipSign q'.active ∧
      r'.generations = r.generations.set d n' := by
  have hbefore := counts.map_getElem?_generations found
  have hafter := counts'.map_getElem?_generations found'
  obtain ⟨n, hn, hcount⟩ := Option.map_eq_some_iff.mp ((hbefore d).trans (if_pos reached))
  obtain ⟨n', hn', hcount'⟩ := Option.map_eq_some_iff.mp ((hafter d).trans (if_pos reached))
  refine ⟨n, n', hn, ?_, List.ext_getElem? fun g => ?_⟩
  · rw [hcount, hcount', h.activeAt_eq_add, if_pos felt]
  · by_cases hg : g = d
    · rw [hg, hn', List.getElem?_set_self (List.getElem?_eq_some_iff.mp hn).1]
    · rw [List.getElem?_set_ne (Ne.symm hg)]
      refine Option.map_injective (fun _ _ => UInt64.toNat_inj.mp) ?_
      rw [hafter, hbefore, h.activeAt_eq fun hfelt => hg (only g hfelt)]

/-- Who is not the account stays in its place, as active as it was. -/
theorem seat_of_get? (h : Flips m m' a q q') (other : b ≠ a) (found : m.get? b = some r)
    (found' : m'.get? b = some r') : r'.referrer = r.referrer ∧ r'.active = r.active := by
  have hseat := h.others b other
  rw [found, found', Option.map_some, Option.map_some, Option.some.injEq] at hseat
  exact Prod.mk.inj hseat

/-- Without a flip, or with one that is felt too far away only, none is felt within reach. -/
theorem not_feltAt_of_still (h : Flips m m' a q q') (only : ∀ g, h.FeltAt g b → g = d)
    (still : q.active = q'.active ∨ maxDepth < d) {g : Nat} (hg : g ≤ maxDepth) : ¬ h.FeltAt g b := by
  intro felt
  obtain hsame | hbeyond := still
  · exact felt.1 hsame
  · exact Nat.not_lt_of_le hg (only g felt ▸ hbeyond)

/-- **Where a flip is not felt within reach**, a record with its own stake stays but for its team stake and
what depends on that. -/
theorem eq_of_far (h : Flips m m' a q q') (counts : Recounted m) (counts' : Recounted m') (other : b ≠ a)
    (found : m.get? b = some r) (found' : m'.get? b = some r') (self : r'.selfStake = r.selfStake)
    (far : ∀ g, g ≤ maxDepth → ¬ h.FeltAt g b) :
    r' = { r with teamStake := r'.teamStake, status := r'.status, downgradeAt := r'.downgradeAt } := by
  obtain ⟨hreferrer, hactive⟩ := h.seat_of_get? other found found'
  have hgenerations : r'.generations = r.generations :=
    h.generations_eq counts counts' found found' fun g hg => far g (Nat.le_of_lt_succ hg)
  have htallies : r'.tallies = r.tallies := Tallies.ext_get fun k => by
    rw [counts.get_tallies_eq counts' found found' (h.tally_eq (fun g _ hg => far g hg) k)]
  obtain ⟨status, referrer, active, selfStake, teamStake, generations, tallies, downgradeAt⟩ := r'
  dsimp only at hreferrer hactive self hgenerations htallies ⊢
  rw [hreferrer, hactive, self, hgenerations, htallies]

end Flips

end Roster

/-! ### What a stake change does to an ancestor -/

/-- **What a stake change so many levels below does to a record**, the account's activity having been
and being what is given. -/
structure Record.Reached (d : Nat) (delta : Int) (before after : Bool) (r r' : Record) : Prop where
  /-- The account stays in its place. -/
  referrer : r'.referrer = r.referrer
  /-- Its own stake stays. -/
  selfStake : r'.selfStake = r.selfStake
  /-- It stays as active as it was. -/
  active : r'.active = r.active
  /-- Its team stake moves by the difference. -/
  teamStake : (r'.teamStake.units : Int) = r.teamStake.units + delta
  /-- Without a flip within reach nothing else changes but the tier and when it is lowered. -/
  still : before = after ∨ maxDepth < d →
    r' = { r with teamStake := r'.teamStake, status := r'.status, downgradeAt := r'.downgradeAt }
  /-- A flip within reach moves the counter of its generation by one, and no other. -/
  generations : before ≠ after → d ≤ maxDepth → ∃ n n' : UInt64, r.generations[d]? = some n ∧
    (n'.toNat : Int) = n.toNat + (if after then 1 else -1) ∧
    r'.generations = r.generations.set d n'
  /-- The number of active referrals changes for the referrer only. -/
  firstLine : d ≠ 1 → r'.tallies.firstLine = r.tallies.firstLine
  /-- The number of those with three referrals of their own changes for the nearest two only. -/
  byThree : d ≠ 1 → d ≠ 2 → r'.tallies.firstLineByThree = r.tallies.firstLineByThree
  /-- The number of teams of all sizes changes for the referrer only. -/
  teams : d ≠ 1 → r'.tallies.teams = r.tallies.teams

namespace Cascade

open Roster

variable {D D' : Draft} {now : Timestamp} {a b : AccountId} {q r : Record} {delta : Int} {bound d : Nat}
  {u : Unit}

/-- **A stake change** flips the activity of the account at most. -/
theorem exists_flips_of_changeStake (full : Full D.records) (found : D.records.get? a = some q)
    (hcourse : (changeStake now a delta bound).Yields D u D') :
    ∃ q', Flips D.records D'.records a q q' := by
  have hreferrers := (walk_changeStake full hcourse).map_referrer_eq
  obtain ⟨stake, -, hothers⟩ := holding_of_changeStake full found hcourse
  have hself := hreferrers a
  rw [found, Option.map_some] at hself
  obtain ⟨q', hq', hplace⟩ := Option.map_eq_some_iff.mp hself
  refine ⟨q', found, hq', hplace, fun b hb => ?_⟩
  have hreferrer := hreferrers b
  have hholding := hothers b hb
  cases hr : D.records.get? b with
  | none =>
      rw [hr, Option.map_none, Option.map_eq_none_iff] at hreferrer
      rw [hreferrer, Option.map_none]
  | some r =>
      rw [hr, Option.map_some] at hreferrer hholding
      obtain ⟨r', hr', hsame⟩ := Option.map_eq_some_iff.mp hreferrer
      rw [hr', Option.map_some] at hholding
      rw [hr', Option.map_some, Option.map_some, Record.seat, Record.seat, hsame,
        (Prod.mk.inj (Option.some.inj hholding)).1]

/-- **A stake change** moves the team stake of every ancestor by the difference. -/
theorem teamStake_of_changeStake {q' r' : Record} (full : Full D.records) (forest : IsForest D.records)
    (raised : Raised D.records) (flips : Flips D.records D'.records a q q')
    (hcourse : (changeStake now a delta bound).Yields D u D') (hd : 1 ≤ d)
    (above : ancestor? D.records d a = some b) (found : D.records.get? b = some r)
    (found' : D'.records.get? b = some r') :
    (r'.teamStake.units : Int) = r.teamStake.units + delta := by
  classical
  have hq := flips.before
  have hstaked : Staked D.records fun c => selfUnits D.records c :=
    ⟨full, forest, fun _ => rfl, raised⟩
  have hstaked' := staked_of_changeStake hstaked hcourse
  obtain ⟨-, -, hothers⟩ := holding_of_changeStake full hq hcourse
  have hgain : (q'.selfStake.units : Int) = q.selfStake.units + delta := by
    have hself := hstaked'.self a
    rwa [selfUnits_of_get? flips.after, selfUnits_of_get? hq, hq, if_pos ⟨rfl, rfl⟩] at hself
  have hwritten : ∀ c, (D'.records.get? c).map (·.selfStake.units) =
      ((D.records.insert a q').get? c).map (·.selfStake.units) := by
    intro c
    rw [SortedMap.get?_insert]
    split
    next hc => rw [hc, flips.after]
    next hc =>
        have hsnd := congrArg (Option.map fun h : Bool × Amount => h.2.units) (hothers c hc)
        rwa [Option.map_map, Option.map_map] at hsnd
  have hplaces : ReachesFrom D'.records = ReachesFrom (D.records.insert a q') := by
    funext level x c
    rw [ReachesFrom, ReachesFrom, ancestor?_congr flips.parentOf_eq,
      ancestor?_insert hq flips.place]
  have hsum : stakeFrom D'.records 1 b = stakeFrom (D.records.insert a q') 1 b := by
    rw [stakeFrom, stakeFrom, hplaces]
    exact SortedMap.total_eq_of_map hwritten fun c n =>
      if ReachesFrom (D.records.insert a q') 1 c b then n else 0
  have hmoved := stakeFrom_insert hq q' flips.place 1 b
  rw [if_pos ⟨d, hd, above⟩] at hmoved
  rw [hstaked'.raised b r' found', raised b r found, hsum, hmoved, hgain]
  omega

/-- **A stake change** leaves the own stakes of others. -/
theorem exists_get?_of_changeStake (full : Full D.records) (found : D.records.get? a = some q)
    (hcourse : (changeStake now a delta bound).Yields D u D') (other : b ≠ a)
    (hr : D.records.get? b = some r) :
    ∃ r', D'.records.get? b = some r' ∧ r'.selfStake = r.selfStake := by
  obtain ⟨-, -, hothers⟩ := holding_of_changeStake full found hcourse
  have hholding := hothers b other
  rw [hr, Option.map_some] at hholding
  obtain ⟨r', hr', hsame⟩ := Option.map_eq_some_iff.mp hholding
  exact ⟨r', hr', (Prod.mk.inj hsame).2⟩

/-- **What a stake change does to an ancestor.** A flip is felt by the ancestor at its own distance only. -/
theorem reached_of_changeStake (counts : Recounted D.records) (raised : Raised D.records)
    (hcourse : (changeStake now a delta bound).Yields D u D')
    (hd : 1 ≤ d) (above : ancestor? D.records d a = some b) :
    ∃ q q' r r', D.records.get? a = some q ∧ D'.records.get? a = some q' ∧
      D.records.get? b = some r ∧ D'.records.get? b = some r' ∧
      r.Reached d delta q.active q'.active r' := by
  obtain ⟨hother, ⟨q, hq⟩, r, hr⟩ := counts.forest.exists_get?_of_ancestor? hd above
  have counts' := recounted_of_changeStake counts hcourse
  obtain ⟨q', hflips⟩ := exists_flips_of_changeStake counts.full hq hcourse
  obtain ⟨r', hr', hself⟩ := exists_get?_of_changeStake counts.full hq hcourse hother hr
  obtain ⟨hreferrer, hactive⟩ := hflips.seat_of_get? hother hr hr'
  have honly : ∀ g, hflips.FeltAt g b → g = d := fun g felt => counts.forest.level_unique felt.2 above
  have hfirst : d ≠ 1 → ¬ hflips.FeltAt 1 b := fun hne felt => hne (honly 1 felt).symm
  have hsecond : d ≠ 2 → ¬ hflips.FeltAt 2 b := fun hne felt => hne (honly 2 felt).symm
  refine ⟨q, q', r, r', hq, hflips.after, hr, hr', ?_⟩
  exact {
    referrer := hreferrer
    selfStake := hself
    active := hactive
    teamStake := teamStake_of_changeStake counts.full counts.forest raised hflips hcourse hd
      above hr hr'
    still := fun hstill => hflips.eq_of_far counts counts' hother hr hr' hself fun _ hg =>
      hflips.not_feltAt_of_still honly hstill hg
    generations := fun hflip hreach =>
      hflips.exists_generations_eq_set counts counts' hr hr' ⟨hflip, above⟩ honly
        (Nat.lt_succ_of_le hreach)
    firstLine := fun hne =>
      counts.get_tallies_eq counts' hr hr' (k := .firstLine) (hflips.tally_firstLine (hfirst hne))
    byThree := fun hne hne' =>
      counts.get_tallies_eq counts' hr hr' (k := .byThree)
        (hflips.tally_byThree (hfirst hne) (hsecond hne'))
    teams := fun hne => by
      rw [counts'.teams_eq hr', counts.teams_eq hr, hflips.tally_firstLine (hfirst hne)] }

end Cascade

/-! ### Histories -/

/-- **A store confines stake changes.** A stake change that succeeds changes the values of no keys but
those of the records and of the queue entries of the account and its ancestors, and does to each
ancestor's record what reaches that far. -/
def Store.Confines (store : Store) (host : Host) : Prop :=
  ∃ m : Roster, store.Holds m ∧ ∀ now a delta w,
    Turn.outcome host ⟨now, .changeStake a delta⟩ store = (.ok (), w) →
    ∃ m' : Roster, w.store.Holds m' ∧
      (∀ k, w.store.view.get? k ≠ store.view.get? k → ∃ g b, Roster.ancestor? m g a = some b ∧
        (k = (Slot.record b).key ∨ ∃ t, k = (Slot.downgrade t b).key)) ∧
      ∀ d b, 1 ≤ d → Roster.ancestor? m d a = some b → ∃ q q' r r',
        m.get? a = some q ∧ m'.get? a = some q' ∧ m.get? b = some r ∧ m'.get? b = some r' ∧
          r.Reached d delta q.active q'.active r'

namespace Forest

variable {host : Host}

/-- **Every store of a history confines its stake changes.** -/
theorem confines_after (quiet : host.Quiet) (turns : List Turn) :
    (after host turns).Confines host := by
  have hall : ∃ L, (World.ofStore (after host turns)).Keeps L ∧ L.InStep ∧
      Roster.Recounted L.records ∧ Roster.Raised L.records :=
    invariant quiet ⟨.empty, Roster.Staked.empty.raised⟩ fun _ _ _ _ _ _ _ _ htakes h =>
      ⟨htakes.recounted h.1, htakes.raised h.1.full h.1.forest h.2⟩
  obtain ⟨L, hkeeps, hstep, hcounts, hraised⟩ := hall
  refine ⟨L.records, holds_of_keeps hkeeps, fun now a delta w hout => ?_⟩
  obtain ⟨L', hkeeps', -, ⟨⟨e, hfailed⟩, -⟩ | ⟨-, ms, hmakes, hpath⟩⟩ :=
    keeps_outcome quiet hkeeps hstep ⟨now, .changeStake a delta⟩
  · rw [hout] at hfailed
    contradiction
  · rw [hout] at hkeeps'
    obtain rfl := hmakes
    obtain ⟨⟩ | ⟨⟨⟩, ⟨⟩⟩ := hpath
    next D bound course =>
      have hup := Roster.upward_upward L.records a
      have hsame := Cascade.sameBeyond_changeStake (D := L.draft) hcounts.full hup
        (Roster.mem_upward_self L.records a) course
      refine ⟨D.records, holds_of_keeps hkeeps', fun k hk => ?_, fun d b hd habove => ?_⟩
      · obtain ⟨b, ⟨g, hg⟩, hkey⟩ := hkeeps.stored.of_get?_ne hkeeps'.stored hsame hk
        exact ⟨g, b, hg, hkey⟩
      · exact Cascade.reached_of_changeStake (D := L.draft) hcounts hraised course hd habove

/-- The store after the small history confines its stake changes, and there is one that succeeds. -/
theorem confines_after_small : Host.standalone.Quiet ∧
    (after Host.standalone SmallHistory.turns).Confines Host.standalone ∧
    (Turn.outcome Host.standalone ⟨⟨1000⟩, .changeStake SmallHistory.leaf (-100000000)⟩
      (after Host.standalone SmallHistory.turns)).1 = .ok () :=
  ⟨Host.quiet_standalone, confines_after Host.quiet_standalone SmallHistory.turns, by decide +kernel⟩

end Forest

end ReferralForest

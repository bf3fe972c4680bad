import ReferralForest.Proofs.Forest.History
import ReferralForest.Proofs.Forest.Lineage
import ReferralForest.Proofs.SortedMap.Totals

/-!
# Stakes

An account's own stake moves by what is reported about it, and the team stake of an account is the sum
of the own stakes of all accounts below it, however far down. A stake change is reported at one account
and its ancestors are raised one by one; until the walk ends, the team stakes from the level it has
reached on up are short of the change.

## Main definitions

* `Roster.stakeFrom` — the sum of own stakes over the accounts from which another is reached.
* `Roster.Trails` — how far the walk over the ancestors has come, and what it has left to do.
* `Roster.Staked` — own stakes, team stakes and activity are as they ought to be.
* `Forest.stakeGained` — what the stake changes of a history add up to.
* `Store.StakesRecounted` — the stakes a store holds are those of a recount.

## Main statements

* `Cascade.raised_of_raiseTeams` — the walk over the ancestors makes up what is short.
* `Forest.stakesRecounted_after` — the stakes are right after every history in which activity is not
  set from outside.
-/

namespace ReferralForest

/-- The activity and the own stake of an account. -/
def Record.holding (r : Record) : Bool × Amount := (r.active, r.selfStake)

namespace Roster

open Classical in
/-- **The sum of own stakes** over the accounts from which an account is reached by going up at least
so many levels: from level 1 on its strict descendants, from level 0 on its whole subtree. -/
noncomputable def stakeFrom (m : Roster) (level : Nat) (a : AccountId) : Nat :=
  m.total fun b r => if ReachesFrom m level b a then r.selfStake.units else 0

/-- The own stake of an account; nothing without a record. -/
def selfUnits (m : Roster) (a : AccountId) : Nat := ((m.get? a).map (·.selfStake.units)).getD 0

open Classical in
/-- **The team stakes are right up to a change** of an account's stake by `delta` that has not reached
the ancestors from a level on. -/
def RaisedBelow (m : Roster) (x : AccountId) (delta : Int) (level : Nat) : Prop :=
  ∀ a r, m.get? a = some r →
    (r.teamStake.units : Int) + (if ReachesFrom m level x a then delta else 0) = stakeFrom m 1 a

/-- The team stakes are right. -/
def Raised (m : Roster) : Prop := ∀ a r, m.get? a = some r → r.teamStake.units = stakeFrom m 1 a

/-- **Team stakes trail behind** a change of an account's stake: the walk over its ancestors has come to a
level, where it is to go on with `next`, and the team stakes lack the change from there on up. -/
structure Trails (m : Roster) (x : AccountId) (delta : Int) (level : Nat) (next : Option AccountId) :
    Prop where
  /-- The walk comes to an end. -/
  forest : IsForest m
  /-- The team stakes are right up to the change. -/
  short : RaisedBelow m x delta level
  /-- The walk goes on with the ancestor at the level. -/
  reached : ancestor? m level x = next

/-- The accounts are active just if their own stakes reach the threshold. -/
def ActiveByStake (m : Roster) : Prop :=
  ∀ a r, m.get? a = some r → r.active = decide (activationThreshold ≤ r.selfStake.units)

variable {m : Roster} {a b c x : AccountId} {r r' : Record} {delta : Int} {level : Nat}

/-! ### Sums over the forest -/

open Classical in
/-- A record written over one with the same referrer moves the sums it is part of. -/
theorem stakeFrom_insert (found : m.get? a = some r) (r' : Record) (same : r'.referrer = r.referrer)
    (level : Nat) (c : AccountId) : (stakeFrom (m.insert a r') level c : Int) =
      stakeFrom m level c +
        if ReachesFrom m level a c then (r'.selfStake.units : Int) - r.selfStake.units else 0 := by
  have htotal := m.total_insert a r' fun b s =>
    if ReachesFrom m level b c then s.selfStake.units else 0
  rw [found, Option.map_some, Option.getD_some] at htotal
  rw [stakeFrom, stakeFrom, reachesFrom_insert found same]
  split_ifs at htotal ⊢ <;> omega

open Classical in
/-- The subtree of an account consists of the account and its strict descendants. -/
theorem stakeFrom_zero (forest : IsForest m) (a : AccountId) :
    stakeFrom m 0 a = selfUnits m a + stakeFrom m 1 a := by
  have hself := m.total_of_key a fun r => r.selfStake.units
  rw [stakeFrom, stakeFrom, selfUnits, ← hself, ← SortedMap.total_add]
  refine SortedMap.total_congr fun b r _ => ?_
  have hsucc := forest.reachesFrom_succ_iff (a := a) (ancestor?_zero (m := m) (a := b))
  rw [Nat.zero_add] at hsucc
  by_cases hab : b = a
  · subst hab
    have hnot : ¬ ReachesFrom m 1 b b := fun h => (hsucc.mp h).2 rfl
    rw [if_pos ⟨0, Nat.le_refl 0, ancestor?_zero⟩, if_pos rfl, if_neg hnot, Nat.add_zero]
  · rw [if_neg hab, Nat.zero_add]
    refine if_congr ?_ rfl rfl
    rw [hsucc]
    exact (and_iff_left fun h => hab h.symm).symm

/-! ### Team stakes -/

/-- Team stakes that lack nothing are right, wherever the walk stands. -/
theorem raised_iff (x : AccountId) (level : Nat) : Raised m ↔ RaisedBelow m x 0 level := by
  simp only [Raised, RaisedBelow, ite_self, Int.add_zero, Int.natCast_inj]

/-- A change of an account's own stake leaves all its ancestors short of it. -/
theorem Raised.change (h : Raised m) (found : m.get? a = some r) (r' : Record)
    (same : r'.referrer = r.referrer) (team : r'.teamStake = r.teamStake)
    (changed : (r'.selfStake.units : Int) = r.selfStake.units + delta) :
    RaisedBelow (m.insert a r') a delta 1 := by
  classical
  intro b s hs
  have hsum := stakeFrom_insert found r' same 1 b
  have hteam : s.teamStake.units = stakeFrom m 1 b := by
    rw [SortedMap.get?_insert] at hs
    split at hs
    next hb =>
        obtain rfl := Option.some.inj hs
        rw [team]
        exact h b r (hb ▸ found)
    next => exact h b s hs
  rw [hsum, hteam, reachesFrom_insert found same, changed]
  split_ifs <;> omega

/-- **Raising the ancestor at a level** leaves the levels above it. -/
theorem RaisedBelow.advance (h : RaisedBelow m x delta level) (forest : IsForest m)
    (found : m.get? a = some r) (reached : ancestor? m level x = some a) (r' : Record)
    (same : r'.referrer = r.referrer) (self : r'.selfStake = r.selfStake)
    (raised : (r'.teamStake.units : Int) = r.teamStake.units + delta) :
    RaisedBelow (m.insert a r') x delta (level + 1) := by
  classical
  intro b s hs
  have hsum := stakeFrom_insert found r' same 1 b
  rw [self, Int.sub_self, ite_self, Int.add_zero] at hsum
  rw [hsum, reachesFrom_insert found same]
  have hsucc := forest.reachesFrom_succ_iff (a := b) reached
  rw [SortedMap.get?_insert] at hs
  split at hs
  next hb =>
      subst hb
      obtain rfl := Option.some.inj hs
      have hself := h b r found
      rw [if_pos ⟨level, Nat.le_refl level, reached⟩] at hself
      rw [if_neg fun hb => (hsucc.mp hb).2 rfl, raised]
      omega
  next hb =>
      have hother := h b s hs
      rwa [if_congr (hsucc.trans (and_iff_left hb)) rfl rfl]

/-- When no ancestor with a record is left, the team stakes are right. -/
theorem RaisedBelow.raised (h : RaisedBelow m x delta level)
    (done : ∀ a, ReachesFrom m level x a → m.get? a = none) : Raised m := by
  intro a r found
  have hteam := h a r found
  rw [if_neg fun hreach => absurd (found.symm.trans (done a hreach)) (by simp)] at hteam
  omega

/-- **A changed own stake** leaves the team stakes trailing behind, from the referrer on. -/
theorem Raised.trails (h : Raised m) (forest : IsForest m) (found : m.get? a = some r) {stake : Amount}
    (changed : (stake.units : Int) = r.selfStake.units + delta) (s : Status) (t : Option Timestamp) :
    Trails (m.insert a { r with selfStake := stake, status := s, downgradeAt := t }) a delta 1
      r.referrer where
  forest := forest.put found rfl
  short := h.change found _ rfl rfl changed
  reached := by rw [ancestor?_one, parentOf_insert_self]

/-- **Raising the team stake** of the ancestor the walk has come to, whatever tier it is settled at, leaves
the team stakes trailing from its referrer on. -/
theorem Trails.advance (h : Trails m x delta level (some a)) (found : m.get? a = some r) {stake : Amount}
    (raised : (stake.units : Int) = r.teamStake.units + delta) (s : Status) (t : Option Timestamp) :
    Trails (m.insert a { r with teamStake := stake, status := s, downgradeAt := t }) x delta (level + 1)
      r.referrer where
  forest := h.forest.put found rfl
  short := h.short.advance h.forest found h.reached _ rfl rfl raised
  reached := by
    rw [ancestor?_insert found]
    · rw [ancestor?_succ, h.reached, Option.bind_some, parentOf_of_get? found]
    · rfl

/-- **Where the walk is over**, at a root or at an account without a record, the team stakes are right. -/
theorem Trails.raised {next : Option AccountId} (h : Trails m x delta level next)
    (done : ∀ a, next = some a → m.get? a = none) : Raised m := by
  refine h.short.raised fun a hreach => ?_
  obtain ⟨j, hj, ha⟩ := hreach
  cases next with
  | none => exact (not_reachesFrom h.reached ⟨j, hj, ha⟩).elim
  | some c =>
      rcases Nat.eq_or_lt_of_le hj with rfl | hlt
      · exact Option.some.inj (h.reached.symm.trans ha) ▸ done c rfl
      · rw [ancestor?_eq_none_of_get? h.reached (done c rfl) hlt] at ha
        contradiction

/-- A record written over one with the same stakes keeps the team stakes right. -/
theorem Raised.put (h : Raised m) (found : m.get? a = some r) (r' : Record)
    (same : r'.referrer = r.referrer) (team : r'.teamStake = r.teamStake)
    (self : r'.selfStake = r.selfStake) : Raised (m.insert a r') := by
  rw [raised_iff a 1]
  exact h.change found r' same team (by rw [self, Int.add_zero])

/-- A new account is above nobody and adds nothing. -/
theorem Raised.put_fresh (h : Raised m) (forest : IsForest m) (fresh : m.get? c = none)
    (self : r.selfStake = .zero) (team : r.teamStake = .zero) : Raised (m.insert c r) := by
  classical
  intro b s hs
  have hsum : stakeFrom (m.insert c r) 1 b = stakeFrom m 1 b := by
    have htotal := m.total_insert c r fun d s => if ReachesFrom m 1 d b then s.selfStake.units else 0
    rw [fresh, self] at htotal
    have hcongr : stakeFrom (m.insert c r) 1 b = (m.insert c r).total fun d s =>
        if ReachesFrom m 1 d b then s.selfStake.units else 0 := by
      refine SortedMap.total_congr fun d s hd => ?_
      rw [SortedMap.get?_insert] at hd
      split at hd
      next hdc => rw [← Option.some.inj hd, self, Amount.zero, ite_self, ite_self]
      next hdc => exact if_congr (forest.reachesFrom_insert_fresh fresh hdc 1) rfl rfl
    rw [hcongr]
    simpa [Amount.zero, stakeFrom] using htotal
  rw [hsum]
  rw [SortedMap.get?_insert] at hs
  split at hs
  next hb =>
      subst hb
      obtain rfl := Option.some.inj hs
      rw [team]
      refine (SortedMap.total_eq_zero fun d s hd => ?_).symm
      have hne : d ≠ b := fun e => by rw [e, fresh] at hd; contradiction
      rw [if_neg (forest.not_reachesFrom_fresh fresh hne 1)]
  next => exact h b s hs

/-! ### Stakes as they ought to be -/

/-- **Stakes are as they ought to be**: own stakes are what was gained, and team stakes are the sums
of the own stakes below. -/
structure Staked (m : Roster) (gained : AccountId → Int) : Prop where
  full : Full m
  forest : IsForest m
  self : ∀ a, (selfUnits m a : Int) = gained a
  raised : Raised m

/-- A record that is written has its own stake, and all others keep theirs. -/
theorem selfUnits_insert (m : Roster) (a : AccountId) (r : Record) (b : AccountId) :
    selfUnits (m.insert a r) b = if b = a then r.selfStake.units else selfUnits m b := by
  rw [selfUnits, SortedMap.get?_insert]
  split <;> rfl

/-- The own stake of an account is that of its record. -/
theorem selfUnits_of_get? (found : m.get? a = some r) : selfUnits m a = r.selfStake.units := by
  rw [selfUnits, found, Option.map_some, Option.getD_some]

namespace Staked

variable {gained : AccountId → Int}

/-- Where there are no records nobody has gained anything. -/
theorem empty : Staked .empty fun _ => 0 where
  full a r hr := by simp at hr
  forest := .empty
  self _ := rfl
  raised a r hr := by simp at hr

/-- What was gained may be said in other words. -/
theorem congr (h : Staked m gained) {gained' : AccountId → Int} (same : ∀ a, gained' a = gained a) :
    Staked m gained' :=
  { h with self := fun a => (h.self a).trans (same a).symm }

/-- A record written over one with the same stakes keeps the stakes right. -/
theorem put (h : Staked m gained) (found : m.get? a = some r) (r' : Record)
    (same : r'.referrer = r.referrer) (team : r'.teamStake = r.teamStake)
    (self : r'.selfStake = r.selfStake) (length : r'.generations.length = r.generations.length) :
    Staked (m.insert a r') gained where
  full := h.full.insert (length.trans (h.full a r found))
  forest := h.forest.put found same
  self b := by
    rw [selfUnits_insert, ← h.self b]
    split
    next hb => rw [hb, selfUnits_of_get? found, self]
    next => rfl
  raised := h.raised.put found r' same team self

/-- A new account has gained nothing. -/
theorem put_fresh (h : Staked m gained) (fresh : m.get? c = none) {p : Option AccountId} (s : Status)
    (placed : ∀ q, p = some q → m.get? q ≠ none) : Staked (m.insert c (.fresh p s)) gained where
  full := h.full.insert (Record.length_fresh p s)
  forest := h.forest.put_fresh fresh placed
  self b := by
    rw [selfUnits_insert, ← h.self b]
    split
    next hb => rw [hb, selfUnits, fresh]; rfl
    next => rfl
  raised := h.raised.put_fresh h.forest fresh rfl rfl

/-- A walk that leaves stakes alone keeps the stakes right. -/
theorem walk {P : Edit} {L L' : Ledger} (h : Staked L.records gained) (walk : Ledger.Walk P L L')
    (leaves : ∀ c r r', P c r r' → r'.selfStake = r.selfStake ∧ r'.teamStake = r.teamStake) :
    Staked L'.records gained := by
  refine walk.invariant (I := fun M => Staked M.records gained) (fun M M' hs hM => ?_) h
  obtain ⟨found, edits, how, settles⟩ := hs
  obtain ⟨hself, hteam⟩ := leaves _ _ _ how
  have hrecords := settles.records_eq
  obtain ⟨s, t, rfl⟩ := settles.exists_eq_update
  rw [Ledger.put, hrecords]
  exact hM.put found _ edits.referrer hteam hself edits.length

end Staked

end Roster

/-! ### Stake changes -/

namespace Cascade

open Roster

variable {D D' : Draft} {now : Timestamp} {a x : AccountId} {delta : Int} {bound level : Nat}

/-- **The walk over the ancestors** makes up what the team stakes are short of. -/
theorem raised_of_raiseTeams {start : Option AccountId} {u : Unit} (full : Full D.records)
    (trails : Trails D.records x delta level start)
    (hcourse : (raiseTeams now delta bound start).Yields D u D') : Raised D'.records := by
  have hnobody : ∀ {bound : Nat} {level : Nat} {next : Option AccountId} {D : Draft},
      Trails D.records x delta level next → (∀ a, next = some a → D.records.get? a = none) →
      (raiseTeams now delta bound none).Yields D u D' → Raised D'.records := by
    intro bound level next D h done hcourse
    have hdone : D' = D := by cases bound <;> exact (yields_done.mp hcourse).2
    rw [hdone]
    exact h.raised done
  induction bound generalizing level start D with
  | zero =>
      cases start with
      | none => exact hnobody trails nofun hcourse
      | some ancestor => exact absurd hcourse (by simp [raiseTeams])
  | succ bound ih =>
      cases start with
      | none => exact hnobody trails nofun hcourse
      | some ancestor =>
          obtain ⟨parent, D₁, D₂, hupdate, hD₂, hrest⟩ := yields_raiseTeams_succ hcourse
          have hrecords₂ : D₂.records = D₁.records := congrArg Ledger.records hD₂
          obtain ⟨hnone, rfl, rfl⟩ | ⟨r, b, r₁, D₀, s, t, hr, hchange, rfl, hrecords⟩ :=
            records_of_update (plain_addTeamStake now delta) full hupdate
          · rw [← hrecords₂] at trails hnone
            exact hnobody trails (fun a ha => Option.some.inj ha ▸ hnone) hrest
          · obtain ⟨rfl, rfl, stake, hstake, rfl⟩ := yields_addTeamStake hchange
            have hwalk := walk_update (plain_addTeamStake now delta) full hupdate
            have hadv := trails.advance hr (Amount.shift?_eq_some_iff.mp hstake) s t
            rw [← hrecords, ← hrecords₂] at hadv
            exact ih (hrecords₂ ▸ hwalk.full full) hadv hrest

/-- **A stake change** is gained by the account, if it has a record, and keeps the stakes right. -/
theorem staked_of_changeStake {gained : AccountId → Int} {u : Unit} (h : Staked D.records gained)
    (hcourse : (changeStake now a delta bound).Yields D u D') :
    Staked D'.records fun b =>
      gained b + if b = a ∧ (D.records.get? a).isSome then delta else 0 := by
  obtain ⟨hnone, rfl⟩ | ⟨r, stake, s, t, D₁, D₂, hr, hstake, hrecords, hraise, hflip⟩ :=
    records_of_changeStake h.full hcourse
  · simpa [hnone] using h
  · have hfull₁ : Full D₁.records := by
      rw [hrecords]
      exact h.full.insert (h.full a r hr)
    have htrails : Trails D₁.records a delta 1 r.referrer := by
      rw [hrecords]
      exact h.raised.trails h.forest hr hstake s t
    have hwalk := walk_raiseTeams hfull₁ hraise
    have hself : ∀ b, selfUnits D₂.records b = selfUnits D₁.records b := fun b =>
      congrArg (Option.getD · 0) <| hwalk.map_get?_eq (f := fun r => r.selfStake.units)
        (fun _ _ _ _ ⟨_, _, heq⟩ => by rw [heq]) (fun _ _ _ => rfl) b
    have hteams : Staked D₂.records fun b =>
        gained b + if b = a ∧ (D.records.get? a).isSome then delta else 0 := by
      refine ⟨hwalk.full hfull₁, htrails.forest.walk hwalk, fun b => ?_,
        raised_of_raiseTeams hfull₁ htrails hraise⟩
      rw [hself, hrecords, selfUnits_insert, ← h.self b, hr]
      by_cases hb : b = a
      · rw [if_pos hb, if_pos ⟨hb, rfl⟩, hstake, hb, selfUnits_of_get? hr]
      · rw [if_neg hb, if_neg fun h => hb h.1, Int.add_zero]
    obtain ⟨-, rfl⟩ | hactive := hflip
    · exact hteams
    · refine hteams.walk (walk_setActive hteams.full hactive) fun c r r' how => ?_
      obtain ⟨active, generations, tallies, rfl, -⟩ := how
      exact ⟨rfl, rfl⟩

/-- Raising team stakes leaves all activity and all own stakes. -/
theorem holding_of_raiseTeams {start : Option AccountId} {u : Unit} (full : Full D.records)
    (hcourse : (raiseTeams now delta bound start).Yields D u D') (b : AccountId) :
    (D'.records.get? b).map Record.holding = (D.records.get? b).map Record.holding := by
  refine (walk_raiseTeams full hcourse).map_get?_eq (fun _ _ _ _ how => ?_) (fun _ _ _ => rfl) b
  obtain ⟨-, team, rfl⟩ := how
  rfl

/-- Setting the activity of an account leaves that of others, and all own stakes. -/
theorem holding_of_setActive {checkAt : Option Timestamp} {active : Bool} {u : Unit}
    (full : Full D.records) (hcourse : (setActive checkAt a active).Yields D u D') (b : AccountId) :
    (D'.records.get? b).map Record.holding =
      (D.records.get? b).map fun r => if b = a then (active, r.selfStake) else r.holding := by
  classical
  obtain ⟨heq, hsame⟩ | ⟨r, r₁, D₁, hr, -, hshift, hD₁, hrest⟩ := yields_setActive full.padded hcourse
  · rw [heq]
    refine Option.map_congr fun r hr => ?_
    split
    next hb => rw [Record.holding, hsame r (hb ▸ hr)]
    next => rfl
  · have hrecords : D₁.records = D.records.insert a r₁ := congrArg Ledger.records hD₁
    have hfull₁ : Full D₁.records := by
      obtain ⟨counter, moved, -, -, rfl⟩ := shiftGeneration?_eq_some hshift
      rw [hrecords]
      exact full.insert (List.length_set.trans (full a r hr))
    have hflip : (D₁.records.get? b).map Record.holding =
        (D.records.get? b).map fun r => if b = a then (active, r.selfStake) else r.holding := by
      rw [hrecords, SortedMap.get?_insert]
      split
      next hb =>
          obtain ⟨counter, moved, -, -, rfl⟩ := shiftGeneration?_eq_some hshift
          rw [hb, hr]
          rfl
      next => rfl
    rw [← hflip]
    obtain ⟨-, rfl⟩ | ⟨parent, -, hspread⟩ := hrest
    · rfl
    · refine (walk_spread hfull₁ hspread).map_get?_eq (fun c r r' _ how => ?_) (fun _ _ _ => rfl) b
      obtain ⟨-, generations, tallies, rfl⟩ := how
      rfl

/-- **What a stake change does to holdings**: the account gets its new stake and is as active as that
says, and the others keep what they hold. -/
theorem holding_of_changeStake {r : Record} {u : Unit} (full : Full D.records)
    (found : D.records.get? a = some r) (hcourse : (changeStake now a delta bound).Yields D u D') :
    ∃ stake : Amount, (D'.records.get? a).map Record.holding =
        some (decide (activationThreshold ≤ stake.units), stake) ∧
      ∀ b, b ≠ a →
        (D'.records.get? b).map Record.holding = (D.records.get? b).map Record.holding := by
  obtain ⟨hnone, -⟩ | ⟨r₀, stake, s, t, D₁, D₂, hr₀, -, hrecords, hraise, hflip⟩ :=
    records_of_changeStake full hcourse
  · rw [found] at hnone
    contradiction
  · obtain rfl := Option.some.inj (found.symm.trans hr₀)
    have hfull₁ : Full D₁.records := by
      rw [hrecords]
      exact full.insert (full a r found)
    have hwalk := walk_raiseTeams hfull₁ hraise
    have hteams := holding_of_raiseTeams hfull₁ hraise
    have hself₂ : (D₂.records.get? a).map Record.holding = some (r.active, stake) := by
      rw [hteams, hrecords, SortedMap.get?_insert_self]
      rfl
    have hother₂ : ∀ b, b ≠ a →
        (D₂.records.get? b).map Record.holding = (D.records.get? b).map Record.holding := by
      intro b hb
      rw [hteams, hrecords, SortedMap.get?_insert_of_ne _ _ hb]
    obtain ⟨hsame, rfl⟩ | hactive := hflip
    · exact ⟨stake, hsame ▸ hself₂, hother₂⟩
    · have hset := holding_of_setActive (hwalk.full hfull₁) hactive
      refine ⟨stake, ?_, fun b hb => ?_⟩
      · obtain ⟨r', hr', hholding⟩ := Option.map_eq_some_iff.mp hself₂
        rw [hset, hr', Option.map_some, if_pos rfl, (Prod.mk.inj hholding).2]
      · simpa only [hb, if_false] using (hset b).trans (by simpa only [hb, if_false] using hother₂ b hb)

/-- **A stake change** leaves every account as active as its stake says. -/
theorem activeByStake_of_changeStake {u : Unit} (full : Full D.records)
    (h : ActiveByStake D.records) (hcourse : (changeStake now a delta bound).Yields D u D') :
    ActiveByStake D'.records := by
  cases hr : D.records.get? a with
  | none =>
      obtain ⟨-, rfl⟩ | ⟨r, _, _, _, _, _, hfound, -⟩ := records_of_changeStake full hcourse
      · exact h
      · rw [hr] at hfound
        contradiction
  | some r =>
      obtain ⟨stake, hself, hothers⟩ := holding_of_changeStake full hr hcourse
      intro b q hq
      by_cases hb : b = a
      · subst hb
        rw [hq, Option.map_some] at hself
        obtain ⟨hactive, hstake⟩ := Prod.mk.inj (Option.some.inj hself)
        rw [hactive, hstake]
      · have hkept := hothers b hb
        rw [hq, Option.map_some] at hkept
        obtain ⟨r', hr', hholding⟩ := Option.map_eq_some_iff.mp hkept.symm
        obtain ⟨hactive, hstake⟩ := Prod.mk.inj hholding
        rw [← hactive, ← hstake]
        exact h b r' hr'

end Cascade

namespace Roster

variable {m : Roster} {a c : AccountId} {r : Record}

/-- Where there are no records nobody is active. -/
theorem ActiveByStake.empty : ActiveByStake .empty := by
  intro a r hr
  simp at hr

/-- A new account is inactive and has no stake. -/
theorem ActiveByStake.put_fresh (h : ActiveByStake m) (p : Option AccountId) (s : Status) :
    ActiveByStake (m.insert c (.fresh p s)) :=
  SortedMap.forall_insert h rfl

/-- Settling a record leaves its activity. -/
theorem ActiveByStake.put (h : ActiveByStake m) (found : m.get? a = some r) (s : Status)
    (t : Option Timestamp) : ActiveByStake (m.insert a { r with status := s, downgradeAt := t }) :=
  SortedMap.forall_insert h (h a r found)

end Roster

/-- **A calm move** keeps the stakes right. -/
theorem Move.Takes.staked {mv : Move} {L L' : Ledger} {gained : AccountId → Int} (h : mv.Takes L L')
    (calm : mv.Calm) (staked : Roster.Staked L.records gained)
    (active : Roster.ActiveByStake L.records) :
    Roster.Staked L'.records gained ∧ Roster.ActiveByStake L'.records := by
  refine h.records_invariant (I := fun m => Roster.Staked m gained ∧ Roster.ActiveByStake m)
    (fun m c p s hm hnone placed => ?_) (fun m a r s t hm found => ?_) calm ⟨staked, active⟩
  · exact ⟨hm.1.put_fresh hnone s placed, hm.2.put_fresh p s⟩
  · exact ⟨hm.1.put found _ rfl rfl rfl rfl, hm.2.put found s t⟩

/-- **A move** keeps the team stakes right. -/
theorem Move.Takes.raised {mv : Move} {L L' : Ledger} (h : mv.Takes L L')
    (full : Roster.Full L.records) (forest : Roster.IsForest L.records)
    (raised : Roster.Raised L.records) : Roster.Raised L'.records := by
  have hstaked : Roster.Staked L.records fun a => Roster.selfUnits L.records a :=
    ⟨full, forest, fun _ => rfl, raised⟩
  by_cases calm : mv.Calm
  · obtain ⟨gained, hafter⟩ := h.records_invariant (I := fun m => ∃ gained, Roster.Staked m gained)
      (fun m c p s ⟨gained, hm⟩ hnone placed => ⟨gained, hm.put_fresh hnone s placed⟩)
      (fun m a r s t ⟨gained, hm⟩ found => ⟨gained, hm.put found _ rfl rfl rfl rfl⟩) calm ⟨_, hstaked⟩
    exact hafter.raised
  · cases h with
    | changeStake course => exact (Cascade.staked_of_changeStake (D := L.draft) hstaked course).raised
    | setActive course =>
        refine (hstaked.walk (Cascade.walk_setActive full course) fun c r r' how => ?_).raised
        obtain ⟨active, generations, tallies, rfl, -⟩ := how
        exact ⟨rfl, rfl⟩
    | _ => exact absurd trivial calm

/-! ### Histories -/

/-- Whether an operation neither changes a stake nor sets activity. -/
def Operation.Calm : Operation → Prop
  | .changeStake _ _ | .setActive _ _ _ => False
  | _ => True

/-- Whether an operation leaves activity to the stakes. -/
def Operation.LeavesActivity : Operation → Prop
  | .setActive _ _ _ => False
  | _ => True

/-- The operations of the small history leave activity to the stakes. -/
theorem SmallHistory.leavesActivity : ∀ turn ∈ turns, turn.operation.LeavesActivity := by
  simp [turns, Operation.LeavesActivity]

/-- The moves of a calm operation are calm. -/
theorem Operation.Allows.calm {now : Timestamp} {op : Operation} {mv : Move} (h : op.Allows now mv)
    (calm : op.Calm) : mv.Calm := by
  cases op with
  | register =>
      obtain ⟨p, c, rfl⟩ := h
      trivial
  | importGenesis => cases mv <;> trivial
  | importParts => cases mv <;> trivial
  | changeStake => exact calm.elim
  | setActive => exact calm.elim
  | beginBlock =>
      obtain ⟨t, a, rfl⟩ := h
      trivial
  | _ => exact h ▸ trivial

/-- **What an account gains by a turn** on a store: the difference a stake change of the account
reports, if it succeeds and the account has a record. -/
def Turn.stakeGained (host : Host) (turn : Turn) (store : Store) (a : AccountId) : Int :=
  match turn.operation, (turn.outcome host store).1 with
  | .changeStake b delta, .ok () =>
    if a = b ∧ store.view.contains (Slot.record b).key = true then delta else 0
  | _, _ => 0

/-- **What an account gains by a history**, its turns being given latest first. -/
def Forest.stakeGained (host : Host) : List Turn → AccountId → Int
  | [], _ => 0
  | turn :: earlier, a =>
    stakeGained host earlier a + turn.stakeGained host (after host earlier) a

/-- **The stakes a store holds are those of a recount.** The own stake of an account is what it has
gained; its team stake is the sum of the own stakes of its strict descendants; it is active just if its
own stake reaches the threshold; and asking for the stake of its network gives the sum over its whole
subtree, or fails if that is out of range. -/
def Store.StakesRecounted (store : Store) (gained : AccountId → Int) : Prop :=
  ∃ m : Roster, store.Holds m ∧ ∀ a r, m.get? a = some r →
    (r.selfStake.units : Int) = gained a ∧
    r.teamStake.units = m.stakeFrom 1 a ∧
    (r.active = true ↔ activationThreshold ≤ r.selfStake.units) ∧
    (World.ofStore store).run (Program.networkStake a) =
      (match Amount.ofNat? (m.stakeFrom 0 a) with
        | some total => .ok total
        | none => .error (.overflow "delegated in network"), World.ofStore store)

/-- Nothing is gained by a turn that fails. -/
theorem Turn.stakeGained_of_error {host : Host} {turn : Turn} {store : Store} {e : Error} {w : World}
    (h : turn.outcome host store = (.error e, w)) (a : AccountId) :
    turn.stakeGained host store a = 0 := by
  rw [stakeGained, h]
  split
  next heq => contradiction
  next => rfl

/-- Nothing is gained by a calm operation. -/
theorem Turn.stakeGained_of_calm {host : Host} {turn : Turn} {store : Store}
    (h : turn.operation.Calm) (a : AccountId) : turn.stakeGained host store a = 0 := by
  rw [stakeGained]
  split
  next heq _ => exact (heq ▸ h : (Operation.changeStake _ _).Calm).elim
  next => rfl

/-- What is gained by a stake change that succeeds on a store that keeps a ledger. -/
theorem Turn.stakeGained_of_changeStake {host : Host} {turn : Turn} {store : Store} {w : World}
    {L : Ledger} {b : AccountId} {delta : Int} (hop : turn.operation = .changeStake b delta)
    (hout : turn.outcome host store = (.ok (), w)) (keeps : (World.ofStore store).Keeps L)
    (a : AccountId) : turn.stakeGained host store a =
      if a = b ∧ (L.records.get? b).isSome then delta else 0 := by
  have hkey : store.view.contains (Slot.record b).key = (L.records.get? b).isSome := by
    have hslot : store.view.get? (Slot.record b).key = L.value? (.record b) :=
      keeps.stored.value (.record b)
    rw [SortedMap.contains, hslot, Ledger.value?, Option.isSome_map]
  rw [stakeGained, hop, hout]
  dsimp only
  rw [hkey]

/-- **Asking for the stake of a network** gives the sum over the subtree, or fails if it is out of
range. -/
theorem World.Keeps.run_networkStake {w : World} {L : Ledger} {gained : AccountId → Int}
    (h : w.Keeps L) (staked : Roster.Staked L.records gained) {a : AccountId} {r : Record}
    (found : L.records.get? a = some r) :
    w.run (Program.networkStake a) =
      (match Amount.ofNat? (L.records.stakeFrom 0 a) with
        | some total => .ok total
        | none => .error (.overflow "delegated in network"), w) := by
  have hrecord := h.run_record a
  rw [found] at hrecord
  have hsum : r.teamStake.add? r.selfStake = Amount.ofNat? (L.records.stakeFrom 0 a) := by
    rw [Amount.add?, staked.raised a r found, Roster.stakeFrom_zero staked.forest,
      Roster.selfUnits_of_get? found, Nat.add_comm]
  rw [Program.networkStake, run_bind_of_ok hrecord, hsum]
  cases Amount.ofNat? (L.records.stakeFrom 0 a) <;> rfl

/-- **A turn that succeeds** keeps the stakes right, each account having gained what the turn gives
it. -/
theorem Turn.staked_of_taken {host : Host} {turn : Turn} {store : Store} {w : World} {L L' : Ledger}
    {ms : List Move} {gained : AccountId → Int} (leaves : turn.operation.LeavesActivity)
    (keeps : (World.ofStore store).Keeps L) (hout : turn.outcome host store = (.ok (), w))
    (makes : turn.operation.Makes turn.time ms) (path : Ledger.Path ms L L')
    (staked : Roster.Staked L.records gained) (active : Roster.ActiveByStake L.records) :
    Roster.Staked L'.records (fun a => gained a + turn.stakeGained host store a) ∧
      Roster.ActiveByStake L'.records := by
  by_cases hcalm : turn.operation.Calm
  · have hafter : Roster.Staked L'.records gained ∧ Roster.ActiveByStake L'.records :=
      path.invariant (I := fun M => Roster.Staked M.records gained ∧ Roster.ActiveByStake M.records)
        (fun m hm M M' htakes hM => htakes.staked ((makes.allows hm).calm hcalm) hM.1 hM.2)
        ⟨staked, active⟩
    refine ⟨hafter.1.congr fun a => ?_, hafter.2⟩
    rw [stakeGained_of_calm hcalm, Int.add_zero]
  · cases hop : turn.operation with
    | changeStake b delta =>
        rw [hop] at makes
        obtain rfl := makes
        obtain ⟨⟩ | ⟨⟨⟩, ⟨⟩⟩ := path
        next D bound course =>
          refine ⟨(Cascade.staked_of_changeStake staked course).congr fun a => ?_,
            Cascade.activeByStake_of_changeStake staked.full active course⟩
          rw [stakeGained_of_changeStake hop hout keeps]
          rfl
    | setActive => exact (hop ▸ leaves : (Operation.setActive _ _ _).LeavesActivity).elim
    | _ => exact absurd (hop ▸ trivial) hcalm

/-- **The stakes are right after every history** in which activity is left to the stakes. -/
theorem Forest.stakesRecounted_after {host : Host} (quiet : host.Quiet) {turns : List Turn}
    (leaves : ∀ turn ∈ turns, turn.operation.LeavesActivity) :
    (Forest.after host turns).StakesRecounted (Forest.stakeGained host turns) := by
  have hall : ∃ L, (World.ofStore (after host turns)).Keeps L ∧ L.InStep ∧
      ((∀ turn ∈ turns, turn.operation.LeavesActivity) →
        Roster.Staked L.records (stakeGained host turns) ∧ Roster.ActiveByStake L.records) := by
    refine after_induction quiet (I := fun past L =>
      (∀ turn ∈ past, turn.operation.LeavesActivity) →
        Roster.Staked L.records (stakeGained host past) ∧ Roster.ActiveByStake L.records)
      (fun _ => ⟨.empty, .empty⟩) ?_ ?_ turns
    · intro turn earlier L e w hI hout hpast
      obtain ⟨hstaked, hactive⟩ := hI fun t ht => hpast t (List.mem_cons_of_mem _ ht)
      refine ⟨hstaked.congr fun a => ?_, hactive⟩
      rw [stakeGained, Turn.stakeGained_of_error hout, Int.add_zero]
    · intro turn earlier L ms L' w hI hkeeps _ hout hmakes hpath hpast
      obtain ⟨hstaked, hactive⟩ := hI fun t ht => hpast t (List.mem_cons_of_mem _ ht)
      have hleaves := hpast turn List.mem_cons_self
      exact turn.staked_of_taken hleaves hkeeps hout hmakes hpath hstaked hactive
  obtain ⟨L, hkeeps, -, hL⟩ := hall
  obtain ⟨hstaked, hactive⟩ := hL leaves
  refine ⟨L.records, holds_of_keeps hkeeps, fun a r found => ⟨?_, hstaked.raised a r found, ?_, ?_⟩⟩
  · rw [← hstaked.self a, Roster.selfUnits_of_get? found]
  · rw [hactive a r found, decide_eq_true_eq]
  · exact hkeeps.run_networkStake hstaked found

/-- The stakes are right after the small history: what the referral has gained is all the root has in its
network. -/
theorem Forest.stakesRecounted_after_small :
    (Host.standalone.Quiet ∧ ∀ turn ∈ SmallHistory.turns, turn.operation.LeavesActivity) ∧
      (Forest.after Host.standalone SmallHistory.turns).StakesRecounted
        (Forest.stakeGained Host.standalone SmallHistory.turns) ∧
      Forest.stakeGained Host.standalone SmallHistory.turns SmallHistory.leaf = 100000000 ∧
      ((World.ofStore (Forest.after Host.standalone SmallHistory.turns)).run
        (Program.networkStake SmallHistory.root)).1.map Amount.units = .ok 100000000 :=
  ⟨⟨Host.quiet_standalone, SmallHistory.leavesActivity⟩,
    stakesRecounted_after Host.quiet_standalone SmallHistory.leavesActivity, by decide +kernel,
    by decide +kernel⟩

end ReferralForest

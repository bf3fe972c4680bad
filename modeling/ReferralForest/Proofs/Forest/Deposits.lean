import ReferralForest.Proofs.Cascade.Succeeding
import ReferralForest.Proofs.Forest.Compare
import ReferralForest.Proofs.Forest.Kinship

/-!
# Deposits

A stake change by no less than nothing, carried out on a forest below one in which everything fits. It
goes through, since whatever it counts is no more than what is counted above; and it is a rising walk,
since nobody becomes inactive, counts only go up and teams only move to larger classes.

The argument follows the cascade phase by phase. In each phase the counts are right up to what is still
owed, so the value a change arrives at is a recount of the forest as it is then, which fits.

## Main definitions

* `Ledger.Ready` — a ledger on which deposits go through.

## Main statements

* `Cascade.exists_stride` — a change that raises the measures of a record goes through.
* `Cascade.exists_addSelfStake`, `Cascade.exists_raiseTeams`, `Cascade.exists_spread`,
  `Cascade.exists_setActive` — the phases.
* `Cascade.exists_changeStake` — a deposit goes through and is a rising walk.
-/

namespace ReferralForest

open Roster

/-- **A ledger is ready for deposits** within a forest, as of some times: no count is negative, nobody
holds more than in that forest, and every record can be checked. -/
structure Ledger.Ready (L : Ledger) (u : Roster) (times : Set Timestamp) : Prop where
  /-- All records are full. -/
  full : Full L.records
  /-- No count is negative. -/
  sane : ∀ a r, L.records.get? a = some r → r.tallies.Sane
  /-- Nobody holds more than in the forest above. -/
  below : Below L.records u
  /-- Every record can be checked. -/
  checkable : L.Checkable times

namespace Ledger.Ready

variable {L L' : Ledger} {u : Roster} {times : Set Timestamp} {a : AccountId} {r r₁ r₂ : Record}
  {checkAt : Option Timestamp}

/-- An account holds no more than in the forest above, as long as its holdings stay. -/
theorem within (h : L.Ready u times) (found : L.records.get? a = some r) (active : r₁.active = r.active)
    (self : r₁.selfStake = r.selfStake) (q : Record) (hq : u.get? a = some q) : r₁.Within q := by
  obtain ⟨q', hq', hwithin⟩ := h.below.within a r found
  obtain rfl := Option.some.inj (hq.symm.trans hq')
  rw [Record.Within, active, self]
  exact hwithin

/-- **A rising stride** leaves a ledger ready. -/
theorem stride (h : L.Ready u times) (found : L.records.get? a = some r) (edits : r.Edits r₁)
    (rises : Edit.rising checkAt r r₁) (sane : r₁.tallies.Sane)
    (within : ∀ q, u.get? a = some q → r₁.Within q) (settles : L.Settles a checkAt r₁ r₂ L') :
    (L'.put a r₂).Ready u times := by
  classical
  have hrecords := settles.records_eq
  have hparams := settles.params_eq
  have hheld : (∀ b s, L.records.get? b = some s → s.Held) → r₂.Held := by
    intro hall
    have hbefore := (hall a r found).rise rises.1 edits.status edits.downgradeAt
    cases checkAt with
    | none =>
        cases settles
        exact hbefore
    | some time => exact settles.climbed.held
  obtain ⟨s, t, rfl⟩ := settles.exists_eq_update
  refine ⟨?_, fun b q hq => ?_, ?_, ?_⟩
  · rw [Ledger.put, hrecords]
    exact h.full.insert (edits.length.trans (h.full a r found))
  · rw [Ledger.put, hrecords, SortedMap.get?_insert] at hq
    split at hq
    next => exact Option.some.inj hq ▸ sane
    next => exact h.sane b q hq
  · rw [Ledger.put, hrecords]
    exact h.below.put found edits.referrer within
  · obtain htimely | hall := h.checkable
    · refine .inl fun now hnow => ?_
      rw [Timely, Ledger.put, hparams]
      exact htimely now hnow
    · refine .inr fun b q hq => ?_
      rw [Ledger.put, hrecords, SortedMap.get?_insert] at hq
      split at hq
      next => exact Option.some.inj hq ▸ hheld hall
      next => exact hall b q hq

end Ledger.Ready

namespace Cascade

open Ledger

variable {β : Type} {D D' : Draft} {u : Roster} {times : Set Timestamp} {now : Timestamp}
  {a x : AccountId} {delta : Int} {bound level levels : Nat} {owed : TallyKind → Int}

/-- **A change that raises the measures of a record** goes through; the record is put as it is
settled. -/
theorem exists_stride {checkAt : Option Timestamp} {change : Record → Cascade (β × Record)} {b : β}
    {r r₁ : Record} (ready : D.toLedger.Ready u times) (timed : ∀ t, checkAt = some t → t ∈ times)
    (found : D.records.get? a = some r) (changes : (change r).Yields D (b, r₁) D) (edits : r.Edits r₁)
    (rises : Edit.rising checkAt r r₁) (sane : r₁.tallies.Sane)
    (within : ∀ q, u.get? a = some q → r₁.Within q) :
    ∃ D' r₂ L₂, (update checkAt a change).Yields D (some b) D' ∧
      D.toLedger.Settles a checkAt r₁ r₂ L₂ ∧ D'.toLedger = L₂.put a r₂ ∧
      Walk Edit.rising D.toLedger D'.toLedger ∧ D'.toLedger.Ready u times := by
  have hchecks : ∀ t, checkAt = some t → D.toLedger.Timely t ∨ r₁.Held := by
    intro t ht
    refine ready.checkable.imp (fun htimely => htimely t (timed t ht)) fun hall => ?_
    exact (hall a r found).rise rises.1 edits.status edits.downgradeAt
  obtain ⟨D', hupdate⟩ := exists_yields_update ready.full.padded found changes hchecks
  obtain ⟨hnone, -, -⟩ | ⟨r', b', r₁', D₁, r₂, L₂, hr', hchange', settles, -, hD'⟩ :=
    yields_update hupdate
  · rw [found] at hnone
    contradiction
  · obtain rfl := Option.some.inj (found.symm.trans hr')
    rw [Record.normalize_of_length (ready.full a r found).ge] at hchange'
    obtain ⟨hb, rfl⟩ := Prod.mk.inj (changes.symm.trans hchange')
    obtain ⟨-, rfl⟩ := Prod.mk.inj (Except.ok.inj hb)
    refine ⟨D', r₂, L₂, hupdate, settles, hD', ?_, ?_⟩
    · rw [hD']
      exact .single (.intro found edits rises settles)
    · rw [hD']
      exact ready.stride found edits rises sane within settles

/-- **An update that raises the measures** of the record it finds, if any, goes through as a rising
walk. -/
theorem exists_update {checkAt : Option Timestamp} {change : Record → Cascade (β × Record)}
    (ready : D.toLedger.Ready u times) (timed : ∀ t, checkAt = some t → t ∈ times)
    (rises : ∀ r, D.records.get? a = some r → ∃ b r₁, (change r).Yields D (b, r₁) D ∧ r.Edits r₁ ∧
      Edit.rising checkAt r r₁ ∧ r₁.tallies.Sane ∧ ∀ q, u.get? a = some q → r₁.Within q) :
    ∃ result D', (update checkAt a change).Yields D result D' ∧
      Walk Edit.rising D.toLedger D'.toLedger ∧ D'.toLedger.Ready u times := by
  cases hr : D.records.get? a with
  | none => exact ⟨none, D, yields_update_of_none hr, .refl, ready⟩
  | some r =>
      obtain ⟨b, r₁, hchange, hedits, hrises, hsane, hwithin⟩ := rises r hr
      obtain ⟨D', -, -, hupdate, -, -, hwalk, hready⟩ :=
        exists_stride ready timed hr hchange hedits hrises hsane hwithin
      exact ⟨some b, D', hupdate, hwalk, hready⟩

/-! ### Team stakes -/

/-- The team stake of an ancestor rises to what is staked below it. -/
theorem rises_addTeamStake {ancestor : AccountId} {r : Record} (sound : Sound u)
    (ready : D.toLedger.Ready u times) (trails : Trails D.records x delta level (some ancestor))
    (gain : 0 ≤ delta) (found : D.records.get? ancestor = some r) :
    ∃ b r₁, (addTeamStake delta r).Yields D (b, r₁) D ∧ r.Edits r₁ ∧ Edit.rising (some now) r r₁ ∧
      r₁.tallies.Sane ∧ ∀ q, u.get? ancestor = some q → r₁.Within q := by
  have hsum := trails.short ancestor r found
  rw [if_pos ⟨level, Nat.le_refl level, trails.reached⟩] at hsum
  obtain ⟨stake, hunits⟩ : ∃ stake : Amount, (stake.units : Int) = r.teamStake.units + delta :=
    ⟨⟨_, ready.below.stakeFrom_lt sound found⟩, hsum.symm⟩
  have hrises : r.MeasuresLe { r with teamStake := stake } :=
    ⟨Nat.le_refl _, by dsimp only; omega, Int.le_refl _, Int.le_refl _, fun _ => Nat.le_refl _⟩
  refine ⟨r.referrer, { r with teamStake := stake }, ?_, ⟨rfl, rfl, rfl, rfl⟩, ⟨hrises, by simp⟩,
    ready.sane _ r found, ready.within found rfl rfl⟩
  exact yields_bind.mpr ⟨stake, D, yields_checked.mpr ⟨Amount.shift?_eq_some_iff.mpr hunits, rfl⟩,
    yields_done.mpr ⟨rfl, rfl⟩⟩

/-- **Raising the team stakes** goes through: each comes to what is staked below the ancestor. -/
theorem exists_raiseTeams {start : Option AccountId} (sound : Sound u) (timed : now ∈ times)
    (ready : D.toLedger.Ready u times) (trails : Trails D.records x delta level start)
    (ends : ancestor? D.records (level + bound) x = none) (gain : 0 ≤ delta) :
    ∃ D', (raiseTeams now delta bound start).Yields D () D' ∧
      Walk Edit.rising D.toLedger D'.toLedger ∧ D'.toLedger.Ready u times := by
  have hnobody : ∀ (bound : Nat) (D : Draft), (raiseTeams now delta bound none).Yields D () D := by
    intro bound D
    cases bound <;> exact yields_done.mpr ⟨rfl, rfl⟩
  induction bound generalizing level start D with
  | zero =>
      cases start with
      | none => exact ⟨D, hnobody 0 D, .refl, ready⟩
      | some ancestor =>
          rw [Nat.add_zero, trails.reached] at ends
          contradiction
  | succ bound ih =>
      cases start with
      | none => exact ⟨D, hnobody _ D, .refl, ready⟩
      | some ancestor =>
          obtain ⟨parent, D₁, hupdate, hwalk, hready⟩ :=
            exists_update ready (fun t ht => Option.some.inj ht ▸ timed)
              fun r hr => rises_addTeamStake sound ready trails gain hr
          obtain ⟨D₂, hD₂, hannounced⟩ :=
            exists_yields_announce_if (delta ≠ 0) ancestor .stakeChanged D₁
          have hrecords₂ : D₂.records = D₁.records := congrArg Ledger.records hD₂
          rw [← hD₂] at hwalk hready
          have hrest : ∃ D', (raiseTeams now delta bound parent.join).Yields D₂ () D' ∧
              Walk Edit.rising D₂.toLedger D'.toLedger ∧ D'.toLedger.Ready u times := by
            have hplain := plain_addTeamStake now delta
            obtain ⟨-, rfl, -⟩ | ⟨r, b, r₁, D₀, s, t, hr, hchange, rfl, hrecords⟩ :=
              records_of_update hplain ready.full hupdate
            · exact ⟨D₂, hnobody bound D₂, .refl, hready⟩
            · obtain ⟨rfl, rfl, stake, hstake, rfl⟩ := yields_addTeamStake hchange
              have hraised := walk_update hplain ready.full hupdate
              have hadv := trails.advance hr (Amount.shift?_eq_some_iff.mp hstake) s t
              rw [← hrecords, ← hrecords₂] at hadv
              refine ih hready hadv ?_
              rw [hrecords₂, ancestor?_congr (parentOf_walk hraised), Nat.add_right_comm]
              exact ends
          obtain ⟨D', hcourse, hrising, hready'⟩ := hrest
          exact ⟨D', yields_bind.mpr ⟨parent, D₁, hupdate, hannounced _ () D' hcourse⟩,
            hwalk.trans hrising, hready'⟩

/-! ### Counts -/

/-- **Paying what is owed to the tallies of an account** goes through: they come to a recount of its
referrals. -/
theorem exists_pay {change : Record → Cascade (β × Record)} (sound : Sound u) (timed : now ∈ times)
    (ready : D.toLedger.Ready u times) (tallied : TalliedUpTo D.records (some a) owed)
    (line : 0 ≤ owed .firstLine) (three : 0 ≤ owed .byThree)
    (moves : ∀ r, D.records.get? a = some r →
      (∀ k, 0 ≤ (r.tallies.get k).toInt + owed k ∧ FitsInt64 ((r.tallies.get k).toInt + owed k)) →
      ∃ b t, (change r).Yields D (b, { r with tallies := t }) D ∧
        (∀ k, (t.get k).toInt = (r.tallies.get k).toInt + owed k) ∧
          ∀ leg, r.tallies.teamsOf leg ≤ t.teamsOf leg) :
    ∃ result D', (update (some now) a change).Yields D result D' ∧
      Walk Edit.rising D.toLedger D'.toLedger ∧ D'.toLedger.Ready u times := by
  refine exists_update ready (fun t ht => Option.some.inj ht ▸ timed) fun r hr => ?_
  have hpaid : ∀ k, (r.tallies.get k).toInt + owed k = childrenFor D.records a k := by
    intro k
    have := tallied a r k hr
    rwa [if_pos rfl] at this
  have hroom : ∀ k, 0 ≤ (r.tallies.get k).toInt + owed k ∧
      FitsInt64 ((r.tallies.get k).toInt + owed k) := by
    intro k
    have hmin : Int64.minValue.toInt = -2 ^ 63 := by decide
    have hle := ready.below.childrenFor_le sound hr k
    rw [hpaid k, FitsInt64]
    omega
  obtain ⟨b, t, hchange, hcounts, hteams⟩ := moves r hr hroom
  refine ⟨b, { r with tallies := t }, hchange, ⟨rfl, rfl, rfl, rfl⟩, ⟨⟨Nat.le_refl _, Nat.le_refl _,
    ?_, ?_, hteams⟩, by simp⟩, fun k => ?_, ready.within hr rfl rfl⟩
  · have := hcounts .firstLine
    exact this ▸ Int.le_add_of_nonneg_right line
  · have := hcounts .byThree
    exact this ▸ Int.le_add_of_nonneg_right three
  · rw [hcounts k]
    exact (hroom k).1

/-- **Counting a child that became active** goes through. -/
theorem exists_countChild {child : Flip} {parent : AccountId} (sound : Sound u) (timed : now ∈ times)
    (ready : D.toLedger.Ready u times)
    (h : Spreading D.records x (flipSign true) level (some parent) fun k =>
      if k = .firstLine ∨ k = .byThree ∧ child.hasThree = true ∨ k = .team (.ofSize child.teamSize)
      then flipSign true else 0) :
    ∃ crossed D',
      (update (some now) parent (countChild child true (flipSign true))).Yields D crossed D' ∧
        Walk Edit.rising D.toLedger D'.toLedger ∧ D'.toLedger.Ready u times := by
  refine exists_pay sound timed ready h.tallied (by simp [flipSign]) (by split <;> simp [flipSign]) ?_
  intro r hr hroom
  obtain ⟨t, ht⟩ := Tallies.exists_shiftChild? fun k => (hroom k).2
  have hcounts := Tallies.get_of_shiftChild? ht
  refine ⟨_, t, yields_bind.mpr ⟨t, D, yields_checked.mpr ⟨ht, rfl⟩, yields_done.mpr ⟨rfl, rfl⟩⟩,
    hcounts, Tallies.teamsOf_le_teamsOf fun c => ?_⟩
  rw [hcounts]
  split <;> simp [flipSign]

/-- **The ripple of an account that became active** goes through. -/
theorem exists_ripples {crossed : Option AccountId} (sound : Sound u) (timed : now ∈ times)
    (ready : D.toLedger.Ready u times)
    (h : Spreading D.records x (flipSign true) level crossed fun k =>
      if k = .byThree then flipSign true else 0) :
    ∃ D', Ripples (some now) true crossed D D' ∧ Walk Edit.rising D.toLedger D'.toLedger ∧
      D'.toLedger.Ready u times := by
  cases crossed with
  | none => exact ⟨D, rfl, .refl, ready⟩
  | some grandparent =>
      have hpay : ∃ v D', (update (some now) grandparent (countByThree (flipSign true))).Yields D v D' ∧
          Walk Edit.rising D.toLedger D'.toLedger ∧ D'.toLedger.Ready u times := by
        refine exists_pay sound timed ready h.tallied (by simp) (by simp [flipSign]) ?_
        intro r hr hroom
        have hfits := (hroom .byThree).2
        rw [if_pos rfl] at hfits
        obtain ⟨t, ht⟩ := Tallies.exists_shiftByThree? hfits
        have hcounts := Tallies.get_of_shiftByThree? ht
        refine ⟨_, t, yields_bind.mpr ⟨t, D, yields_checked.mpr ⟨ht, rfl⟩,
          yields_done.mpr ⟨rfl, rfl⟩⟩, hcounts, Tallies.teamsOf_le_teamsOf fun c => ?_⟩
        rw [hcounts, if_neg (by simp), Int.add_zero]
      obtain ⟨v, D', hupdate, hrising⟩ := hpay
      exact ⟨D', ⟨v, hupdate⟩, hrising⟩

/-- **The correction after a stride** goes through if the team has grown. -/
theorem exists_corrects {stride : Stride} (sound : Sound u) (timed : now ∈ times)
    (ready : D.toLedger.Ready u times)
    (h : Spreading D.records x delta level stride.next stride.leaves)
    (grows : ∀ before after, stride.moved = some (before, after) → before ≤ after) :
    ∃ D', stride.Corrects (some now) D D' ∧ Walk Edit.rising D.toLedger D'.toLedger ∧
      D'.toLedger.Ready u times := by
  obtain ⟨_ | next, _ | ⟨before, after⟩⟩ := stride
  case some.some =>
      have hpay : ∃ v D', (update (some now) next (reclassify before after)).Yields D v D' ∧
          Walk Edit.rising D.toLedger D'.toLedger ∧ D'.toLedger.Ready u times := by
        refine exists_pay sound timed ready h.tallied (by simp [Stride.leaves])
          (by simp [Stride.leaves]) ?_
        intro r hr hroom
        have hsane := ready.sane next r hr
        obtain ⟨t, ht⟩ : ∃ t, r.tallies.moveTeam? before after = some t :=
          Tallies.exists_moveTeam? (hsane (.team (.ofSize before))) fun k => (hroom k).2
        exact ⟨_, t, yields_bind.mpr ⟨t, D, yields_checked.mpr ⟨ht, rfl⟩,
          yields_done.mpr ⟨rfl, rfl⟩⟩, Tallies.get_of_moveTeam? ht,
          Tallies.teamsOf_le_of_moveTeam? ht hsane (grows before after rfl)⟩
      obtain ⟨v, D', hupdate, hrising⟩ := hpay
      exact ⟨D', ⟨v, hupdate⟩, hrising⟩
  all_goals exact ⟨D, rfl, .refl, ready⟩

/-- A team grows when the counter of a generation does. -/
theorem activeTeamSize_le_set {r : Record} {counter moved : UInt64} {level : Nat}
    (old : r.generations[level]? = some counter) (grows : counter.toNat ≤ moved.toNat) :
    r.activeTeamSize ≤ { r with generations := r.generations.set level moved }.activeTeamSize := by
  have hpoint : List.Forall₂ (fun n n' : UInt64 => n.toNat ≤ n'.toNat) r.generations
      (r.generations.set level moved) := by
    refine List.forall₂_iff_get.mpr ⟨List.length_set.symm, fun g hg hg' => ?_⟩
    rw [List.get_eq_getElem, List.get_eq_getElem, List.getElem_set]
    split
    next hlevel =>
        subst hlevel
        rw [List.getElem?_eq_getElem hg, Option.some.injEq] at old
        rw [old]
        exact grows
    next => exact Nat.le_refl _
  have hteam : List.Forall₂ (· ≤ ·) (((r.generations.drop 1).take 13).map UInt64.toNat)
      ((((r.generations.set level moved).drop 1).take 13).map UInt64.toNat) :=
    List.forall₂_map_left_iff.mpr (List.forall₂_map_right_iff.mpr
      (List.forall₂_take 13 (List.forall₂_drop 1 hpoint)))
  exact hteam.sum_le_sum

/-- A stride moves a team to a larger size only, if it counts an account in. -/
theorem Stride.le_of_countDescendant {ancestor : AccountId} {checkAt : Option Timestamp}
    {stride : Stride} (full : Full D.records)
    (hupdate : (update checkAt ancestor (countDescendant level (flipSign true))).Yields D
      (some stride) D') (before after : Nat) (moved : stride.moved = some (before, after)) :
    before ≤ after := by
  have plain : Plain (Edit.counts checkAt checkAt) (countDescendant level (flipSign true)) :=
    plain_countDescendant level (flipSign true)
  obtain ⟨-, hresult, -⟩ | ⟨r, b, r₁, D₀, s, t, hr, hchange, hresult, -⟩ :=
    records_of_update plain full hupdate
  · contradiction
  · obtain rfl := Option.some.inj hresult
    obtain ⟨-, hshift, rfl⟩ := yields_countDescendant hchange
    obtain ⟨counter, n, hcounter, hn, rfl⟩ := shiftGeneration?_eq_some hshift
    have hcounts := toNat_of_counterShift? hn
    obtain ⟨-, hsizes⟩ := Option.ite_none_right_eq_some.mp moved
    obtain ⟨rfl, rfl⟩ := Prod.mk.inj (Option.some.inj hsizes)
    exact activeTeamSize_le_set hcounter (by simp only [flipSign, if_true] at hcounts; omega)

/-- **Counting an account that became active in the generations above** goes through: each counter comes
to the number of accounts active there. -/
theorem exists_countGenerations {start : Option AccountId} (sound : Sound u) (timed : now ∈ times)
    (ready : D.toLedger.Ready u times)
    (h : Spreading D.records x (flipSign true) level none fun _ => 0)
    (reached : ancestor? D.records level x = start) (bound : levels + level = generationCount) :
    ∃ D', (countGenerations (some now) (flipSign true) levels level start).Yields D () D' ∧
      Walk Edit.rising D.toLedger D'.toLedger ∧ D'.toLedger.Ready u times := by
  induction levels generalizing level start D with
  | zero => exact ⟨D, yields_done.mpr ⟨rfl, rfl⟩, .refl, ready⟩
  | succ levels ih =>
      cases start with
      | none => exact ⟨D, yields_done.mpr ⟨rfl, rfl⟩, .refl, ready⟩
      | some ancestor =>
          have hlevel : level < generationCount := by omega
          have hrises : ∀ r, D.records.get? ancestor = some r → ∃ b r₁,
              (countDescendant level (flipSign true) r).Yields D (b, r₁) D ∧ r.Edits r₁ ∧
                Edit.rising (some now) r r₁ ∧ r₁.tallies.Sane ∧
                  ∀ q, u.get? ancestor = some q → r₁.Within q := by
            intro r hr
            obtain ⟨moved, hshift⟩ := h.counted.exists_shift hr reached
              (by rwa [ready.full ancestor r hr]) (ready.below.activeAt_lt sound hr hlevel)
            exact ⟨_, _, yields_bind.mpr ⟨_, D, yields_checked.mpr ⟨hshift, rfl⟩,
              yields_done.mpr ⟨rfl, rfl⟩⟩, ⟨rfl, rfl, rfl, List.length_set⟩,
              ⟨.of_eq rfl, by simp⟩, ready.sane _ r hr, ready.within hr rfl rfl⟩
          obtain ⟨result, D₁, hupdate, hwalk, hready⟩ :=
            exists_update ready (fun t ht => Option.some.inj ht ▸ timed) hrises
          obtain ⟨rfl, -, -⟩ | ⟨stride, rfl, hstride, hnext⟩ :=
            spreading_of_countDescendant h reached hupdate
          · exact ⟨D₁, yields_countGenerations_of_none hupdate, hwalk, hready⟩
          · obtain ⟨D₂, hcorrects, hwalk₂, hready₂⟩ := exists_corrects sound timed hready hstride
              (Stride.le_of_countDescendant ready.full hupdate)
            have hup := parentOf_walk (walk_corrects hready.full hcorrects)
            obtain ⟨D', hclimb, hwalk', hready'⟩ := ih hready₂
              (spreading_of_corrects hstride hcorrects) (by rw [ancestor?_congr hup, hnext]) (by omega)
            exact ⟨D', yields_countGenerations_of_corrects hupdate hcorrects hclimb,
              (hwalk.trans hwalk₂).trans hwalk', hready'⟩

/-- **The phases above an account that became active** go through. -/
theorem exists_spread (child : Flip) {parent : AccountId} (sound : Sound u) (timed : now ∈ times)
    (ready : D.toLedger.Ready u times)
    (h : Spreading D.records x (flipSign true) 1 (some parent) fun k =>
      if k = .firstLine ∨ k = .byThree ∧ child.hasThree = true ∨ k = .team (.ofSize child.teamSize)
      then flipSign true else 0)
    (reached : ancestor? D.records 1 x = some parent) :
    ∃ D', Spread (some now) true child parent D D' ∧ Walk Edit.rising D.toLedger D'.toLedger ∧
      D'.toLedger.Ready u times := by
  obtain ⟨crossed, D₁, hcount, hwalk₁, hready₁⟩ := exists_countChild sound timed ready h
  have hcounted := spreading_of_countChild h hcount
  obtain ⟨D₂, hripple, hwalk₂, hready₂⟩ := exists_ripples sound timed hready₁ hcounted
  have hup₁ := parentOf_walk (walk_update (plain_countChild child true _) ready.full hcount)
  have hup₂ := parentOf_walk (walk_ripples hready₁.full hripple)
  have hreached : ancestor? D₂.records 1 x = some parent := by
    rw [ancestor?_congr (hup₂.trans hup₁), reached]
  obtain ⟨D', hclimb, hwalk', hready'⟩ := exists_countGenerations sound timed hready₂
    (spreading_of_ripples hcounted hripple) hreached rfl
  exact ⟨D', .intro hcount hripple hclimb, (hwalk₁.trans hwalk₂).trans hwalk', hready'⟩

/-- **The record of an account that becomes active** is put: its own counter comes to the number of
accounts active at its own generation. -/
theorem exists_flipRecord {r : Record} (sound : Sound u) (ready : D.toLedger.Ready u times)
    (recounted : Recounted D.records) (found : D.records.get? a = some r) (inactive : r.active = false)
    (above : ∀ q, u.get? a = some q → q.active = true) :
    ∃ (child : Flip) (D₁ : Draft),
      (update none a (flipRecord true (flipSign true))).Yields D (some (some child)) D₁ ∧
      Walk Edit.rising D.toLedger D₁.toLedger ∧ D₁.toLedger.Ready u times := by
  have hflips : r.active ≠ true := by simp [inactive]
  have hwithin : ∀ q, u.get? a = some q → { r with active := true }.Within q := by
    intro q hq
    exact ⟨fun _ => above q hq, (ready.within found rfl rfl q hq).2⟩
  have hbelow : Below (D.records.insert a { r with active := true }) u :=
    ready.below.put found rfl hwithin
  obtain ⟨moved, hshift⟩ := recounted.exists_shift found hflips
    (hbelow.activeAt_lt sound (SortedMap.get?_insert_self _ _ _) (by decide))
  let r₁ : Record := { r with active := true, generations := r.generations.set 0 moved }
  have hflip : (flipRecord true (flipSign true) r).Yields D (some ⟨r₁.referrer, r₁.activeTeamSize,
      (byThree : Int) ≤ r₁.tallies.firstLine.toInt⟩, r₁) D := by
    rw [flipRecord, if_neg hflips]
    exact yields_bind.mpr ⟨_, D, yields_checked.mpr ⟨hshift, rfl⟩, yields_done.mpr ⟨rfl, rfl⟩⟩
  have hnever : ∀ t, none = some t → t ∈ times := by simp
  obtain ⟨D₁, -, -, hupdate, -, -, hwalk, hready⟩ := exists_stride ready hnever found hflip
    ⟨rfl, rfl, rfl, List.length_set⟩ ⟨.of_eq rfl, fun _ => rfl⟩ (ready.sane a r found) hwithin
  exact ⟨_, D₁, hupdate, hwalk, hready⟩

/-- **Becoming active** goes through where the account is active in the forest above. -/
theorem exists_setActive {r : Record} (sound : Sound u) (timed : now ∈ times)
    (ready : D.toLedger.Ready u times) (recounted : Recounted D.records)
    (found : D.records.get? a = some r) (inactive : r.active = false)
    (above : ∀ q, u.get? a = some q → q.active = true) :
    ∃ D', (setActive (some now) a true).Yields D () D' ∧ Walk Edit.rising D.toLedger D'.toLedger ∧
      D'.toLedger.Ready u times := by
  obtain ⟨child, D₁, hflip, hwalk, hready⟩ :=
    exists_flipRecord sound ready recounted found inactive above
  obtain ⟨hspreading, hup⟩ := spreading_of_flipRecord recounted hflip rfl
  cases hparent : child.parent with
  | none => exact ⟨D₁, yields_setActive_of_root hflip hparent, hwalk, hready⟩
  | some parent =>
      rw [hparent] at hspreading hup
      obtain ⟨D', hspread, hwalk', hready'⟩ := exists_spread child sound timed hready hspreading hup
      exact ⟨D', yields_setActive_of_spread hflip hparent hspread, hwalk.trans hwalk', hready'⟩

/-! ### Deposits -/

/-- **The own stake of an account** rises. -/
theorem exists_addSelfStake {r : Record} (timed : now ∈ times) (ready : D.toLedger.Ready u times)
    (found : D.records.get? a = some r) (gain : 0 ≤ delta)
    (room : ∀ q, u.get? a = some q → (r.selfStake.units : Int) + delta ≤ q.selfStake.units) :
    ∃ (stake : Amount) (s : Status) (t : Option Timestamp) (D₁ : Draft),
      (stake.units : Int) = r.selfStake.units + delta ∧
      (update (some now) a (addSelfStake delta)).Yields D
        (some (if decide (activationThreshold ≤ stake.units) = r.active then none
          else some (decide (activationThreshold ≤ stake.units)), r.referrer)) D₁ ∧
      D₁.records = D.records.insert a { r with selfStake := stake, status := s, downgradeAt := t } ∧
      Walk Edit.rising D.toLedger D₁.toLedger ∧ D₁.toLedger.Ready u times := by
  obtain ⟨q, hq, hholds⟩ := ready.below.within a r found
  have hroom := room q hq
  obtain ⟨stake, hunits⟩ : ∃ stake : Amount, (stake.units : Int) = r.selfStake.units + delta := by
    have hlt := q.selfStake.units_lt
    exact ⟨⟨(r.selfStake.units + delta).toNat, by omega⟩, by dsimp only; omega⟩
  have hchange : (addSelfStake delta r).Yields D
      ((if decide (activationThreshold ≤ stake.units) = r.active then none
        else some (decide (activationThreshold ≤ stake.units)), r.referrer),
        { r with selfStake := stake }) D :=
    yields_bind.mpr ⟨stake, D, yields_checked.mpr ⟨Amount.shift?_eq_some_iff.mpr hunits, rfl⟩,
      yields_done.mpr ⟨rfl, rfl⟩⟩
  have hrises : r.MeasuresLe { r with selfStake := stake } :=
    ⟨by dsimp only; omega, Nat.le_refl _, Int.le_refl _, Int.le_refl _, fun _ => Nat.le_refl _⟩
  have hwithin : ∀ q', u.get? a = some q' → { r with selfStake := stake }.Within q' := by
    intro q' hq'
    obtain rfl := Option.some.inj (hq.symm.trans hq')
    exact ⟨hholds.1, by dsimp only; omega⟩
  obtain ⟨D₁, r₂, L₂, hupdate, settles, hD₁, hwalk, hready⟩ := exists_stride ready
    (fun t ht => Option.some.inj ht ▸ timed) found hchange ⟨rfl, rfl, rfl, rfl⟩ ⟨hrises, by simp⟩
    (ready.sane a r found) hwithin
  have hrecords : D₁.records = L₂.records.insert a r₂ := congrArg Ledger.records hD₁
  rw [settles.records_eq] at hrecords
  obtain ⟨s, t, rfl⟩ := settles.exists_eq_update
  exact ⟨stake, s, t, D₁, hunits, hupdate, hrecords, hwalk, hready⟩

/-- **The end of a deposit**: an account that has come to the stake for it becomes active, unless it is
active already. More stake makes no account inactive. -/
theorem exists_flip {r : Record} {stake : Amount} (sound : Sound u) (timed : now ∈ times)
    (ready : D.toLedger.Ready u times) (recounted : Recounted D.records)
    (found : D.records.get? a = some r) (before : r.active = true → activationThreshold ≤ stake.units)
    (above : ∀ q, u.get? a = some q → stake.units ≤ q.selfStake.units) :
    ∃ D', ((if decide (activationThreshold ≤ stake.units) = r.active then none
        else some (decide (activationThreshold ≤ stake.units))) = none ∧ D' = D ∨
          ∃ active, (if decide (activationThreshold ≤ stake.units) = r.active then none
            else some (decide (activationThreshold ≤ stake.units))) = some active ∧
              (setActive (some now) a active).Yields D () D') ∧
      Walk Edit.rising D.toLedger D'.toLedger ∧ D'.toLedger.Ready u times := by
  by_cases hflip : decide (activationThreshold ≤ stake.units) = r.active
  · exact ⟨D, .inl ⟨if_pos hflip, rfl⟩, .refl, ready⟩
  · have hinactive : r.active = false := by
      rw [← Bool.not_eq_true]
      intro hactive
      exact hflip (hactive ▸ decide_eq_true (before hactive))
    have hreached : decide (activationThreshold ≤ stake.units) = true := by
      rw [hinactive] at hflip
      exact Bool.eq_true_of_not_eq_false hflip
    have habove : ∀ q, u.get? a = some q → q.active = true := by
      intro q hq
      rw [sound.activeByStake a q hq, decide_eq_true_eq]
      exact Nat.le_trans (of_decide_eq_true hreached) (above q hq)
    obtain ⟨D', hset, hwalk, hready⟩ :=
      exists_setActive sound timed ready recounted found hinactive habove
    refine ⟨D', .inr ⟨true, ?_, hset⟩, hwalk, hready⟩
    rw [if_neg hflip, hreached]

/-- **A deposit goes through** where the account holds no more afterwards than in the forest above, as long
as the walk over its ancestors may be as long as there are records. The ancestors come to what is staked
below them, and all counts are right before the account becomes active. -/
theorem exists_changeStake (sound : Sound u) (timed : now ∈ times)
    (ready : D.toLedger.Ready u times) (here : Sound D.records) (gain : 0 ≤ delta)
    (room : ∀ r q, D.records.get? a = some r → u.get? a = some q →
      (r.selfStake.units : Int) + delta ≤ q.selfStake.units) (bounded : D.records.size ≤ bound) :
    ∃ D', (changeStake now a delta bound).Yields D () D' ∧
      Walk Edit.rising D.toLedger D'.toLedger ∧ D'.toLedger.Ready u times := by
  cases hr : D.records.get? a with
  | none =>
      exact ⟨D, yields_bind.mpr ⟨none, D, yields_update_of_none hr, yields_done.mpr ⟨rfl, rfl⟩⟩, .refl,
        ready⟩
  | some r =>
      have hroom := fun q hq => room r q hr hq
      obtain ⟨stake, s, t, D₁, hunits, hupdate, hrecords, hwalk₁, hready₁⟩ :=
        exists_addSelfStake timed ready hr gain hroom
      obtain ⟨D₂, hD₂, hcourse⟩ := exists_yields_changeStake bound hupdate
      rw [← hD₂] at hwalk₁ hready₁
      rw [← show D₂.records = D₁.records from congrArg Ledger.records hD₂] at hrecords
      have hself : Recounted D₂.records := by
        rw [hrecords]
        exact here.recounted.put hr _ rfl rfl rfl rfl
      have htrails : Trails D₂.records a delta 1 r.referrer := by
        rw [hrecords]
        exact here.raised.trails here.recounted.forest hr hunits s t
      have hends : ancestor? D₂.records (1 + bound) a = none := by
        rw [ancestor?_congr (parentOf_walk hwalk₁)]
        exact here.recounted.forest.ancestor?_eq_none_of_size_le (by simp [hr]) (Nat.le_add_left_of_le bounded)
      obtain ⟨D₃, hraise, hwalk₂, hready₂⟩ :=
        exists_raiseTeams sound timed hready₁ htrails hends gain
      have hrecounted := recounted_of_raiseTeams hself hraise
      have hholding := holding_of_raiseTeams hself.full hraise a
      rw [hrecords, SortedMap.get?_insert_self, Option.map_some] at hholding
      obtain ⟨r₃, hr₃, hheld⟩ := Option.map_eq_some_iff.mp hholding
      have hactive : r₃.active = r.active := (Prod.mk.inj hheld).1
      have hbefore : r₃.active = true → activationThreshold ≤ stake.units := by
        rw [hactive, here.activeByStake a r hr, decide_eq_true_eq]
        omega
      have habove : ∀ q, u.get? a = some q → stake.units ≤ q.selfStake.units := by
        intro q hq
        have := hroom q hq
        omega
      obtain ⟨D', hflip, hwalk₃, hready₃⟩ :=
        exists_flip sound timed hready₂ hrecounted hr₃ hbefore habove
      rw [hactive] at hflip
      exact ⟨D', hcourse D₃ D' hraise hflip, (hwalk₁.trans hwalk₂).trans hwalk₃, hready₃⟩

end Cascade

end ReferralForest

import Mathlib.Order.Bounds.Defs
import ReferralForest.Proofs.Forest.Commuting
import ReferralForest.Proofs.Forest.Settled
import ReferralForest.Proofs.Status.Measures

/-!
# The Table of Tiers

What each tier asks for, as a table in base units and heads. The report on a tier compares whole display
units, cut off where a word ends, and counts teams from a size on as sums over size classes; the table
knows neither. Where no count is negative the two agree, and every criterion shows what it looks at, cut
off at its target.

Over arbitrary records the tiers are not in order: the count by three may exceed the count it is part of.
Where the counts are right it cannot, and then the tier a record climbs to is the greatest it meets.

## Main definitions

* `Status.AsksOf` — the table.
* `Criterion.found` — what a criterion looks at.
* `Record.Outdoes` — a record that is at least as good as another in every column of the table.
* `Store.TiersInOrder` — the records of a store meet, with a tier, all lower ones.

## Main statements

* `Status.metBy_iff_asksOf` — the report agrees with the table.
* `Requirement.shows_of_mem_criteria` — every criterion shows what it looks at.
* `Forest.tiers_after` — all of this, and the order of the tiers after every history.
-/

namespace ReferralForest

/-! ### The table -/

/-- The number of active first-line referrals whose team has at least `size` members: the counts of
the classes that begin there or above. -/
def Tallies.teamsFrom (t : Tallies) (size : Nat) : Int :=
  (TeamClass.all.map fun c => if size ≤ c.least then (t.get (.team c)).toInt else 0).sum

/-- **The table of tiers**: what a tier asks of a record, stakes in base units. -/
def Status.AsksOf (r : Record) : Status → Prop
  | .unspecified | .new => True
  | .starter => 100 * 1000000 ≤ r.selfStake.units
  | .leader => 250 * 1000000 ≤ r.selfStake.units ∧ 20000 * 1000000 ≤ r.teamStake.units ∧
      3 ≤ r.tallies.firstLine.toInt
  | .guru => 600 * 1000000 ≤ r.selfStake.units ∧ 50000 * 1000000 ≤ r.teamStake.units ∧
      3 ≤ r.tallies.firstLineByThree.toInt
  | .boss => 1500 * 1000000 ≤ r.selfStake.units ∧ 150000 * 1000000 ≤ r.teamStake.units ∧
      3 ≤ r.tallies.teamsFrom 15 ∧ 3 ≤ r.tallies.firstLineByThree.toInt
  | .pro => 4000 * 1000000 ≤ r.selfStake.units ∧ 300000 * 1000000 ≤ r.teamStake.units ∧
      3 ≤ r.tallies.teamsFrom 50 ∧ 3 ≤ r.tallies.firstLineByThree.toInt
  | .top => 10000 * 1000000 ≤ r.selfStake.units ∧ 800000 * 1000000 ≤ r.teamStake.units ∧
      3 ≤ r.tallies.teamsFrom 100 ∧ 3 ≤ r.tallies.firstLineByThree.toInt
  | .mega => 30000 * 1000000 ≤ r.selfStake.units ∧ 2000000 * 1000000 ≤ r.teamStake.units ∧
      3 ≤ r.tallies.teamsFrom 300 ∧ 3 ≤ r.tallies.firstLineByThree.toInt

/-- **What a criterion looks at** in a record: a stake in whole display units, or a number of first-line
referrals. -/
def Criterion.found (c : Criterion) (r : Record) : Int :=
  match c.rule with
  | .selfStake => (r.selfStake.units / 1000000 : Nat)
  | .teamStake => (r.teamStake.units / 1000000 : Nat)
  | .referralsByReferrals =>
    if c.parameter = 0 then r.tallies.firstLine.toInt else r.tallies.firstLineByThree.toInt
  | .teamsBySize => r.tallies.teamsFrom c.parameter

/-- **A criterion shows a value**: its actual value is that value, cut off at the target, and it is met
just if the value reaches the target. -/
structure Criterion.Shows (c : Criterion) (value : Int) : Prop where
  /-- The actual value is the value cut off at the target. -/
  actual : (c.actual : Int) = min value c.target
  /-- The criterion is met if the value reaches the target, and only then. -/
  met : c.met = true ↔ (c.target : Int) ≤ value

/-- A criterion shows every value that is the same below its target. -/
theorem Criterion.shows_atLeast {rule : Rule} {target found parameter : Nat} (value : Int)
    (h : ((min found target : Nat) : Int) = min value target) :
    (atLeast rule target found parameter).Shows value where
  actual := h
  met := by
    rw [atLeast, decide_eq_true_iff]
    dsimp only
    omega

/-! ### Display units -/

/-- An amount shows a number of display units just if it has their base units, where a word can say
the number. -/
theorem Amount.le_displayUnits_iff (a : Amount) {n : Nat} (h : n < UInt64.size) :
    n ≤ a.displayUnits ↔ n * 1000000 ≤ a.units := by
  have hdiv : n ≤ a.units / unitsPerDisplayUnit ↔ n * unitsPerDisplayUnit ≤ a.units :=
    Nat.le_div_iff_mul_le (by decide)
  rw [displayUnits]
  rw [unitsPerDisplayUnit] at hdiv ⊢
  omega

/-- Below a number that a word can say, an amount shows its whole display units. -/
theorem Amount.min_displayUnits (a : Amount) {n : Nat} (h : n < UInt64.size) :
    min a.displayUnits n = min (a.units / 1000000) n := by
  rw [displayUnits, unitsPerDisplayUnit]
  omega

/-! ### Teams -/

namespace Tallies

variable {t : Tallies}

/-- The teams from a size on, class by class. -/
theorem teamsFrom_eq (t : Tallies) {size : Nat} (pos : 0 < size) : t.teamsFrom size =
    (if size ≤ 15 then (t.get (.team .below50)).toInt else 0) +
      ((if size ≤ 50 then (t.get (.team .below100)).toInt else 0) +
        ((if size ≤ 100 then (t.get (.team .below300)).toInt else 0) +
          if size ≤ 300 then (t.get (.team .rest)).toInt else 0)) := by
  have hleast : ¬ size ≤ TeamClass.below15.least := Nat.not_le_of_lt pos
  simp only [teamsFrom, TeamClass.all, List.map_cons, List.map_nil, List.sum_cons, List.sum_nil,
    if_neg hleast, Int.zero_add, Int.add_zero]
  rfl

/-- Where no count is negative, the teams from a size on are those of that size. -/
theorem Sane.teamsOf_eq_teamsFrom (sane : t.Sane) {size : Nat} (pos : 0 < size) :
    (t.teamsOf size : Int) = t.teamsFrom size := by
  rw [teamsOf_eq, teamsFrom_eq t pos]
  simp only [Int.natCast_add, apply_ite Nat.cast, Int.toNat_of_nonneg (sane _), Nat.cast_zero]

end Tallies

/-! ### The report and the table -/

/-- What a requirement must be like for its criteria to show what they look at: a word can say the
stakes, and teams have members. -/
structure Requirement.Sensible (q : Requirement) : Prop where
  /-- A word can say the own stake. -/
  selfStake : q.selfStake < UInt64.size
  /-- A word can say the team stake. -/
  teamStake : q.teamStake < UInt64.size
  /-- Teams have members. -/
  leg : ∀ leg, q.shape = .core leg → 0 < leg

/-- The requirements of all tiers are sensible. -/
theorem Status.sensible_of_requirement? {s : Status} {q : Requirement} (h : s.requirement? = some q) :
    q.Sensible := by
  cases s with
  | unspecified | new => contradiction
  | starter | leader | guru =>
      obtain rfl := Option.some.inj h
      exact ⟨by decide, by decide, nofun⟩
  | boss | pro | top | mega =>
      obtain rfl := Option.some.inj h
      exact ⟨by decide, by decide, fun leg hleg => by cases hleg; decide⟩

/-- **The criteria on the accounts below** show what they look at. -/
theorem Structure.shows_of_mem_criteria {r : Record} (sane : r.tallies.Sane) {shape : Structure}
    (hleg : ∀ leg, shape = .core leg → 0 < leg) {c : Criterion} (hc : c ∈ shape.criteria r.tallies) :
    c.Shows (c.found r) := by
  have hline : 0 ≤ r.tallies.firstLine.toInt := sane .firstLine
  have hthree : 0 ≤ r.tallies.firstLineByThree.toInt := sane .byThree
  have byThree_shows : (Criterion.atLeast .referralsByReferrals 3
      r.tallies.firstLineByThree.toInt.toNat byThree).Shows r.tallies.firstLineByThree.toInt :=
    Criterion.shows_atLeast _ (by omega)
  cases shape with
  | unasked => cases hc
  | three =>
      obtain rfl := List.mem_singleton.mp hc
      exact Criterion.shows_atLeast r.tallies.firstLine.toInt (by omega)
  | threeByThree =>
      obtain rfl := List.mem_singleton.mp hc
      exact byThree_shows
  | core leg =>
      obtain rfl | hc := List.mem_cons.mp hc
      · have hteams := sane.teamsOf_eq_teamsFrom (hleg leg rfl)
        exact Criterion.shows_atLeast (r.tallies.teamsFrom leg) (by omega)
      · obtain rfl := List.mem_singleton.mp hc
        exact byThree_shows

/-- **Every criterion of a requirement** shows what it looks at. -/
theorem Requirement.shows_of_mem_criteria {r : Record} (sane : r.tallies.Sane) {q : Requirement}
    (sensible : q.Sensible) {c : Criterion} (hc : c ∈ q.criteria r) : c.Shows (c.found r) := by
  rw [criteria] at hc
  obtain hc | hc := List.mem_append.mp hc
  · split at hc
    · cases hc
    · obtain rfl := List.mem_singleton.mp hc
      have hunits := r.teamStake.min_displayUnits sensible.teamStake
      exact Criterion.shows_atLeast (r.teamStake.units / 1000000 : Nat) (by omega)
  · obtain rfl | hc := List.mem_cons.mp hc
    · have hunits := r.selfStake.min_displayUnits sensible.selfStake
      exact Criterion.shows_atLeast (r.selfStake.units / 1000000 : Nat) (by omega)
    · exact Structure.shows_of_mem_criteria sane sensible.leg hc

/-- A tier is met if its two stakes are there, in base units, and what it asks of the accounts below. -/
theorem Status.metBy_iff_of_requirement? {r : Record} {s : Status} {self team : Nat} {shape : Structure}
    (h : s.requirement? = some ⟨self, team, shape⟩) : s.metBy r = true ↔
      self * 1000000 ≤ r.selfStake.units ∧ team * 1000000 ≤ r.teamStake.units ∧
        shape.MetBy r.tallies := by
  have hsensible := sensible_of_requirement? h
  rw [← r.selfStake.le_displayUnits_iff hsensible.selfStake,
    ← r.teamStake.le_displayUnits_iff hsensible.teamStake, metBy_iff]
  refine ⟨fun hmet => ?_, fun hrow q hq => ?_⟩
  · obtain ⟨hteam, hself, hshape⟩ := hmet _ h
    exact ⟨hself, hteam, hshape⟩
  · obtain rfl := Option.some.inj (h.symm.trans hq)
    exact ⟨hrow.2.1, hrow.1, hrow.2.2⟩

/-- **The report agrees with the table**, where no count is negative. -/
theorem Status.metBy_iff_asksOf {r : Record} (sane : r.tallies.Sane) (s : Status) :
    s.metBy r = true ↔ s.AsksOf r := by
  have hline : 0 ≤ r.tallies.firstLine.toInt := sane .firstLine
  have hthree : 0 ≤ r.tallies.firstLineByThree.toInt := sane .byThree
  have hcore : ∀ leg, 0 < leg → ((Structure.core leg).MetBy r.tallies ↔
      3 ≤ r.tallies.teamsFrom leg ∧ 3 ≤ r.tallies.firstLineByThree.toInt) := by
    intro leg pos
    rw [Structure.MetBy, ← sane.teamsOf_eq_teamsFrom pos]
    omega
  cases s with
  | unspecified | new => exact ⟨fun _ => trivial, fun _ => rfl⟩
  | starter =>
      rw [metBy_iff_of_requirement? rfl, AsksOf]
      exact ⟨fun h => h.1, fun h => ⟨h, by omega, trivial⟩⟩
  | leader | guru =>
      rw [metBy_iff_of_requirement? rfl, AsksOf, Structure.MetBy]
      omega
  | boss | pro | top | mega =>
      rw [metBy_iff_of_requirement? rfl, AsksOf, hcore _ (by decide)]

/-! ### Better records -/

/-- **A record that is at least as good as another** in every column of the table. -/
structure Record.Outdoes (r' r : Record) : Prop where
  /-- The own stake is. -/
  selfStake : r.selfStake.units ≤ r'.selfStake.units
  /-- The team stake is. -/
  teamStake : r.teamStake.units ≤ r'.teamStake.units
  /-- The first line is. -/
  firstLine : r.tallies.firstLine.toInt ≤ r'.tallies.firstLine.toInt
  /-- The count by three is. -/
  byThree : r.tallies.firstLineByThree.toInt ≤ r'.tallies.firstLineByThree.toInt
  /-- The numbers of teams from each size on are. -/
  teams : ∀ size ∈ [15, 50, 100, 300], r.tallies.teamsFrom size ≤ r'.tallies.teamsFrom size

/-- A better record has whatever is asked of another. -/
theorem Status.AsksOf.mono {r r' : Record} {s : Status} (h : s.AsksOf r) (outdoes : r'.Outdoes r) :
    s.AsksOf r' := by
  obtain ⟨hself, hteam, hline, hthree, hteams⟩ := outdoes
  have h15 := hteams 15 (by decide)
  have h50 := hteams 50 (by decide)
  have h100 := hteams 100 (by decide)
  have h300 := hteams 300 (by decide)
  cases s with
  | unspecified | new => trivial
  | _ =>
      rw [AsksOf] at h ⊢
      omega

/-! ### The order of the tiers -/

/-- **Climbing ends at the greatest tier** whose requirement the record meets, if it meets that of the tier
it begins at and no more referrals count by three than count at all. The tier next to the one climbed to
would be met along with any higher one. -/
theorem Cascade.isGreatest_climb {r : Record}
    (hthree : r.tallies.firstLineByThree.toInt ≤ r.tallies.firstLine.toInt) {s : Status}
    (hs : s.metBy r = true) : IsGreatest {t : Status | t.metBy r = true} (climb r s) := by
  refine ⟨metBy_climb hs, fun t ht => ?_⟩
  by_contra hlt
  rw [Status.le_def, Nat.not_le] at hlt
  have hplace : (climb r s).rank + 1 ≤ 8 := Nat.le_trans hlt t.rank_le
  obtain ⟨u, hu⟩ := Status.exists_rank_eq hplace
  have hnext : (climb r s).next? = some u := by rw [Status.next?, ← hu, Status.ofRank?_rank]
  have hmet : u.metBy r = true := Status.metBy_of_le hthree (Status.le_def.mpr (hu ▸ hlt)) ht
  rw [metBy_next_climb r s hnext] at hmet
  contradiction

/-- **The tiers of a store are in order.** No count in its records is negative; a record that meets a
tier's requirement meets those of all lower ones; climbing from a tier that is met ends at the greatest
one that is; and there a status check leaves every record that meets the requirement of its own tier. -/
def Store.TiersInOrder (store : Store) : Prop :=
  ∃ m : Roster, store.Holds m ∧ ∀ a r, m.get? a = some r →
    r.tallies.Sane ∧
    (∀ s t : Status, s ≤ t → t.metBy r = true → s.metBy r = true) ∧
    (∀ s : Status, s.metBy r = true → IsGreatest {t : Status | t.metBy r = true} (Cascade.climb r s)) ∧
    ∀ (host : Host), host.Quiet → ∀ now done w, r.status.metBy r = true →
      (World.ofStore store).run
          ((Cascade.update (some now) a fun r => pure ((), r)).commit host) = (.ok done, w) →
      ∃ m' r', w.store.Holds m' ∧ m'.get? a = some r' ∧
        IsGreatest {t : Status | t.metBy r = true} r'.status

/-- **What a status check alone does** to an account whose record meets the requirement of its tier. -/
theorem World.Keeps.exists_checked {host : Host} (quiet : host.Quiet) {store : Store} {L : Ledger}
    (h : (World.ofStore store).Keeps L) {a : AccountId} {r : Record}
    (found : L.records.get? a = some r) (met : r.status.metBy r = true) {now : Timestamp}
    {done : Option Unit} {w : World} (hrun : (World.ofStore store).run
      ((Cascade.update (some now) a fun r => pure ((), r)).commit host) = (.ok done, w)) :
    ∃ m' r', w.store.Holds m' ∧ m'.get? a = some r' ∧
      r'.status = Cascade.climb r r.status := by
  have hlength : r.generations.length = generationCount := h.stored.full a r found
  have hputs : ∀ D, (Cascade.update (some now) a fun r => pure ((), r)).Yields L.draft done D →
      ∃ r' L', L.Settles a (some now) r r' L' ∧ D.toLedger = L'.put a r' := by
    intro D hyields
    obtain ⟨hnone, -⟩ | ⟨r₀, b, r₁, D₁, r₂, L₂, hr₀, hchange, hsettles, -, hput⟩ :=
      Cascade.yields_update hyields
    · rw [show L.draft.records.get? a = some r from found] at hnone
      contradiction
    · obtain rfl := Option.some.inj (found.symm.trans hr₀)
      rw [Record.normalize_of_length (Nat.le_of_eq hlength.symm)] at hchange
      obtain ⟨hr₁, rfl⟩ := Cascade.yields_done.mp hchange
      obtain ⟨-, rfl⟩ := Prod.mk.inj hr₁
      exact ⟨r₂, L₂, hsettles, hput⟩
  have hfull : ∀ D, (Cascade.update (some now) a fun r => pure ((), r)).Yields L.draft done D →
      Roster.Full D.records := by
    intro D hyields
    obtain ⟨r', L', hsettles, hput⟩ := hputs D hyields
    rw [hput, Ledger.put, hsettles.records_eq]
    obtain ⟨s, t, rfl⟩ := hsettles.exists_eq_update
    exact h.stored.full.insert hlength
  obtain ⟨D, hyields, hkeeps⟩ := h.of_run_commit quiet hfull hrun
  obtain ⟨r', L', hsettles, hput⟩ := hputs D hyields
  refine ⟨D.records, r', Forest.holds_of_keeps ⟨hkeeps.free, hkeeps.stored⟩, ?_, ?_⟩
  · rw [hput]
    exact SortedMap.get?_insert_self _ _ _
  · cases hsettles with
    | met | canceled => rfl
    | waiting hunmet | failing hunmet => simp [met] at hunmet

/-- **The tiers**: the report on a tier means that every criterion on it is met, and the same as the table;
every criterion shows what it looks at, cut off at its target; a better record meets what another meets;
and after every history the tiers are in order. -/
theorem Forest.tiers_after {host : Host} (quiet : host.Quiet) (turns : List Turn) :
    (∀ (r : Record) (s : Status), r.tallies.Sane →
      ((s.assess r).overall = true ↔ ∀ c ∈ (s.assess r).criteria, c.met = true) ∧
      ((s.assess r).overall = true ↔ s.AsksOf r) ∧
      ∀ c ∈ (s.assess r).criteria, c.Shows (c.found r)) ∧
    (∀ (r r' : Record) (s : Status), r.tallies.Sane → r'.tallies.Sane → r'.Outdoes r →
      (s.assess r).overall = true → (s.assess r').overall = true) ∧
    (Forest.after host turns).TiersInOrder := by
  refine ⟨fun r s sane => ⟨?_, Status.metBy_iff_asksOf sane s, fun c hc => ?_⟩,
    fun r r' s sane sane' outdoes hmet => ?_, ?_⟩
  · rw [Status.assess, Assessment.ofCriteria, List.all_eq_true]
  · rw [Status.assess, Assessment.ofCriteria] at hc
    cases hq : s.requirement? with
    | none => simp [hq] at hc
    | some q =>
        rw [hq] at hc
        exact Requirement.shows_of_mem_criteria sane (Status.sensible_of_requirement? hq) hc
  · exact (Status.metBy_iff_asksOf sane' s).mpr
      (((Status.metBy_iff_asksOf sane s).mp hmet).mono outdoes)
  · have hall : ∃ L, (World.ofStore (after host turns)).Keeps L ∧ L.InStep ∧
        Roster.Recounted L.records :=
      invariant quiet .empty fun _ _ _ _ _ _ _ _ htakes hcounts => htakes.recounted hcounts
    obtain ⟨L, hkeeps, -, hcounts⟩ := hall
    refine ⟨L.records, holds_of_keeps hkeeps, fun a r found => ?_⟩
    have hthree := hcounts.tallied.byThree_le_firstLine found
    refine ⟨hcounts.tallied.sane found, fun s t => Status.metBy_of_le hthree,
      fun s => Cascade.isGreatest_climb hthree, fun host' quiet' now done w hmet hrun => ?_⟩
    obtain ⟨m', r', hholds, hr', hstatus⟩ := hkeeps.exists_checked quiet' found hmet hrun
    exact ⟨m', r', hholds, hr', hstatus ▸ Cascade.isGreatest_climb hthree hmet⟩

/-- A record that just meets what the second tier with a requirement asks for. -/
def SmallHistory.led : Record :=
  { Record.fresh none .starter with
    selfStake := ⟨250000000, by decide⟩
    teamStake := ⟨20000000000, by decide⟩
    tallies := { Tallies.zero with firstLine := 3, team0 := 3 } }

/-- The tiers after the small history, and a record that meets one. -/
theorem Forest.tiers_after_small : Host.standalone.Quiet ∧ SmallHistory.led.tallies.Sane ∧
    (Status.leader.assess SmallHistory.led).overall = true ∧ Status.leader.AsksOf SmallHistory.led ∧
    (Forest.after Host.standalone SmallHistory.turns).TiersInOrder := by
  have sane : SmallHistory.led.tallies.Sane := by
    rintro (_ | _ | _ | _ | _ | _ | _) <;> decide
  have hmet : (Status.leader.assess SmallHistory.led).overall = true := by decide
  obtain ⟨hmeaning, -, horder⟩ := tiers_after Host.quiet_standalone SmallHistory.turns
  exact ⟨Host.quiet_standalone, sane, hmet, (hmeaning _ _ sane).2.1.mp hmet, horder⟩

end ReferralForest

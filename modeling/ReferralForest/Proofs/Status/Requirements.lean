import Mathlib.Tactic
import ReferralForest.Requirement

/-!
# The Order of Requirements

What it means to meet the requirement of a tier, without the report that is made of it, and that each
tier asks for at least as much as the one below. The one exception is a record with more referrals by
three than referrals: it can meet the tier that asks for the former and fail the one below, which asks
for the latter.

## Main definitions

* `Structure.MetBy`, `Requirement.MetBy` — what is asked for is there.

## Main statements

* `Status.metBy_iff` — the report on a tier says whether its requirement is met.
* `Status.metBy_of_le` — who meets the requirement of a tier meets those of all lower tiers.
-/

namespace ReferralForest

/-- What a tier asks of the accounts below is there. -/
def Structure.MetBy (t : Tallies) : Structure → Prop
  | .unasked => True
  | .three => 3 ≤ t.firstLine.toInt.toNat
  | .threeByThree => 3 ≤ t.firstLineByThree.toInt.toNat
  | .core leg => 3 ≤ t.teamsOf leg ∧ 3 ≤ t.firstLineByThree.toInt.toNat

/-- What a tier asks for is there. -/
structure Requirement.MetBy (q : Requirement) (r : Record) : Prop where
  /-- The team stake is. -/
  teamStake : q.teamStake ≤ r.teamStake.displayUnits
  /-- The own stake is. -/
  selfStake : q.selfStake ≤ r.selfStake.displayUnits
  /-- The accounts below are. -/
  shape : q.shape.MetBy r.tallies

/-- The criteria on the accounts below are met just if what is asked of them is there. -/
theorem Structure.all_met_criteria_iff (t : Tallies) (shape : Structure) :
    (shape.criteria t).all (·.met) = true ↔ shape.MetBy t := by
  cases shape <;> simp [criteria, MetBy, Criterion.atLeast]

/-- The criteria of a requirement are met just if the requirement is. -/
theorem Requirement.all_met_criteria_iff (r : Record) (q : Requirement) :
    (q.criteria r).all (·.met) = true ↔ q.MetBy r := by
  rw [criteria, List.all_append, List.all_cons, Bool.and_eq_true, Bool.and_eq_true,
    Structure.all_met_criteria_iff]
  have hteam : ((if q.teamStake = 0 then []
      else [Criterion.atLeast .teamStake q.teamStake r.teamStake.displayUnits 0]).all (·.met)) =
      true ↔ q.teamStake ≤ r.teamStake.displayUnits := by
    by_cases hzero : q.teamStake = 0
    · simp [hzero]
    · simp [hzero, Criterion.atLeast]
  have hself : (Criterion.atLeast .selfStake q.selfStake r.selfStake.displayUnits 0).met = true ↔
      q.selfStake ≤ r.selfStake.displayUnits := decide_eq_true_iff
  rw [hteam, hself]
  exact ⟨fun h => ⟨h.1, h.2.1, h.2.2⟩, fun h => ⟨h.teamStake, h.selfStake, h.shape⟩⟩

/-- Larger teams are fewer. -/
theorem Tallies.teamsOf_anti (t : Tallies) {leg leg' : Nat} (h : leg ≤ leg') :
    t.teamsOf leg' ≤ t.teamsOf leg := by
  have hclass : ∀ (size : Nat) (n : Nat),
      (if leg' ≤ size then n else 0) ≤ if leg ≤ size then n else 0 := by
    intro size n
    split_ifs <;> omega
  simp only [teamsOf, List.map_cons, List.map_nil, List.foldr_cons, List.foldr_nil]
  have h15 := hclass 15 t.team15.toInt.toNat
  have h50 := hclass 50 t.team50.toInt.toNat
  have h100 := hclass 100 t.team100.toInt.toNat
  have h300 := hclass 300 t.team300.toInt.toNat
  omega

/-- Who has three large teams has three smaller ones. -/
theorem Structure.MetBy.core_anti {t : Tallies} {leg leg' : Nat} (hleg : leg ≤ leg')
    (h : (Structure.core leg').MetBy t) : (Structure.core leg).MetBy t := by
  obtain ⟨hteams, hthree⟩ := h
  exact ⟨Nat.le_trans hteams (t.teamsOf_anti hleg), hthree⟩

namespace Status

variable {r : Record} {s t : Status}

/-- **The report on a tier** says whether its requirement is met, if it has one. -/
theorem metBy_iff : s.metBy r = true ↔ ∀ q, s.requirement? = some q → q.MetBy r := by
  rw [metBy, assess, Assessment.ofCriteria]
  cases s.requirement? with
  | none => simp
  | some q =>
      refine (Requirement.all_met_criteria_iff r q).trans ?_
      simp

/-- A tier that asks for no more than another is met with it. -/
theorem metBy_of_requirement {q q' : Requirement} (hq : s.requirement? = some q)
    (hq' : t.requirement? = some q') (team : q.teamStake ≤ q'.teamStake)
    (self : q.selfStake ≤ q'.selfStake)
    (shape : q'.shape.MetBy r.tallies → q.shape.MetBy r.tallies) (ht : t.metBy r = true) :
    s.metBy r = true := by
  have hmet := metBy_iff.mp ht q' hq'
  refine metBy_iff.mpr fun p hp => ?_
  obtain rfl := Option.some.inj (hq.symm.trans hp)
  exact ⟨Nat.le_trans team hmet.teamStake, Nat.le_trans self hmet.selfStake, shape hmet.shape⟩

/-- Whoever meets the requirement of the next tier meets that of the tier itself, unless more
referrals count by three than count at all. -/
theorem metBy_of_next (hthree : r.tallies.firstLineByThree.toInt ≤ r.tallies.firstLine.toInt)
    (h : s.next? = some t) (ht : t.metBy r = true) : s.metBy r = true := by
  have hline := Int.toNat_le_toNat hthree
  cases s with
  | unspecified | new => rfl
  | starter =>
      obtain rfl := Option.some.inj h
      exact metBy_of_requirement rfl rfl (by decide) (by decide) (fun _ => trivial) ht
  | leader =>
      obtain rfl := Option.some.inj h
      exact metBy_of_requirement rfl rfl (by decide) (by decide) (fun hby => Nat.le_trans hby hline) ht
  | guru =>
      obtain rfl := Option.some.inj h
      exact metBy_of_requirement rfl rfl (by decide) (by decide) And.right ht
  | boss | pro | top =>
      obtain rfl := Option.some.inj h
      exact metBy_of_requirement rfl rfl (by decide) (by decide) (.core_anti (by decide)) ht
  | mega => contradiction

/-- Every place up to the highest is that of a tier. -/
theorem exists_rank_eq {n : Nat} (h : n ≤ 8) : ∃ s : Status, s.rank = n := by
  have hplaces : ∀ n : Fin 9, (ofRank? n).isSome = true := by decide
  obtain ⟨s, hs⟩ := Option.isSome_iff_exists.mp (hplaces ⟨n, by omega⟩)
  exact ⟨s, rank_of_ofRank? hs⟩

/-- **Whoever meets the requirement of a tier** meets those of all lower tiers, unless more referrals
count by three than count at all. -/
theorem metBy_of_le (hthree : r.tallies.firstLineByThree.toInt ≤ r.tallies.firstLine.toInt)
    (hst : s ≤ t) (ht : t.metBy r = true) : s.metBy r = true := by
  obtain ⟨k, hk⟩ := Nat.exists_eq_add_of_le (show s.rank ≤ t.rank from hst)
  induction k generalizing t with
  | zero => rwa [rank_injective (show s.rank = t.rank from hk.symm)]
  | succ k ih =>
      have hplace : s.rank + k ≤ 8 := by
        have := t.rank_le
        omega
      obtain ⟨u, hu⟩ := exists_rank_eq hplace
      have hnext : u.next? = some t := by
        rw [next?, hu, Nat.add_assoc, ← hk, ofRank?_rank]
      exact ih (show s.rank ≤ u.rank by omega) (metBy_of_next hthree hnext ht) hu

end Status

end ReferralForest

import ReferralForest.Proofs.Cascade.Settling
import ReferralForest.Proofs.Forest.Recount
import ReferralForest.Proofs.Status.Requirements

/-!
# The Order of Measures

Requirements look at a record's measures: its stakes and its tallies. A record whose measures are all at
least those of another meets whatever the other meets, so it climbs at least as far. What a deposit does
to a record only raises its measures: stakes grow, counts go up, and a team moves to a larger size
class.

## Main definitions

* `Record.MeasuresLe` — all measures of a record are at least those of another.
* `Tallies.Sane` — no count is negative.

## Main statements

* `Status.metBy_mono` — whoever measures up to a record meets what it meets.
* `Cascade.climb_climb` — climbing twice, the second time with larger measures, is climbing once.
* `Tallies.teamsOf_le_of_moveTeam?` — a team that grows counts at least as much.
-/

namespace ReferralForest

/-- Larger amounts show at least as many display units. -/
theorem Amount.displayUnits_mono {a b : Amount} (h : a.units ≤ b.units) :
    a.displayUnits ≤ b.displayUnits := by
  have hdiv : a.units / unitsPerDisplayUnit ≤ b.units / unitsPerDisplayUnit :=
    Nat.div_le_div_right h
  rw [displayUnits, displayUnits]
  omega

/-! ### Tallies -/

/-- The least size of a team of a class. -/
def TeamClass.least : TeamClass → Nat
  | below15 => 0
  | below50 => 15
  | below100 => 50
  | below300 => 100
  | rest => 300

/-- Larger teams are of larger classes. -/
theorem TeamClass.least_ofSize_mono {before after : Nat} (h : before ≤ after) :
    (ofSize before).least ≤ (ofSize after).least := by
  simp only [ofSize]
  split_ifs <;> simp only [least] <;> omega

namespace Tallies

variable {t t' : Tallies}

/-- No count is negative. -/
def Sane (t : Tallies) : Prop := ∀ k, 0 ≤ (t.get k).toInt

/-- The teams of a size are those of the classes from that size on. -/
theorem teamsOf_eq (t : Tallies) (leg : Nat) : t.teamsOf leg =
    (if leg ≤ 15 then (t.get (.team .below50)).toInt.toNat else 0) +
      ((if leg ≤ 50 then (t.get (.team .below100)).toInt.toNat else 0) +
        ((if leg ≤ 100 then (t.get (.team .below300)).toInt.toNat else 0) +
          if leg ≤ 300 then (t.get (.team .rest)).toInt.toNat else 0)) := by
  simp only [teamsOf, List.map_cons, List.map_nil, List.foldr_cons, List.foldr_nil, Nat.add_zero, get]

/-- Where no class loses teams, no size does. -/
theorem teamsOf_le_teamsOf
    (h : ∀ c, (t.get (.team c)).toInt ≤ (t'.get (.team c)).toInt) (leg : Nat) :
    t.teamsOf leg ≤ t'.teamsOf leg := by
  have h50 := Int.toNat_le_toNat (h .below50)
  have h100 := Int.toNat_le_toNat (h .below100)
  have h300 := Int.toNat_le_toNat (h .below300)
  have hrest := Int.toNat_le_toNat (h .rest)
  rw [teamsOf_eq, teamsOf_eq]
  split_ifs <;> omega

/-- Where the classes that reach a size lose no teams altogether, the size does not. -/
theorem teamsOf_le_of_shift {sizeClass sizeClass' : TeamClass} (sane : t.Sane)
    (h : ∀ c, (t'.get (.team c)).toInt = (t.get (.team c)).toInt +
      ((if sizeClass' = c then 1 else 0) - if sizeClass = c then 1 else 0))
    (larger : sizeClass.least ≤ sizeClass'.least) (leg : Nat) : t.teamsOf leg ≤ t'.teamsOf leg := by
  have h50 := h .below50
  have h100 := h .below100
  have h300 := h .below300
  have hrest := h .rest
  have hsane50 := sane (.team .below50)
  have hsane100 := sane (.team .below100)
  have hsane300 := sane (.team .below300)
  have hsanerest := sane (.team .rest)
  rw [teamsOf_eq, teamsOf_eq, h50, h100, h300, hrest]
  clear h sane h50 h100 h300 hrest
  generalize (t.get (.team .below50)).toInt = n50 at *
  generalize (t.get (.team .below100)).toInt = n100 at *
  generalize (t.get (.team .below300)).toInt = n300 at *
  generalize (t.get (.team .rest)).toInt = nrest at *
  cases sizeClass <;> cases sizeClass' <;> simp [TeamClass.least] at larger ⊢ <;>
    split_ifs <;> omega

/-- **A team that grows** counts for at least as many sizes. -/
theorem teamsOf_le_of_moveTeam? {before after : Nat} (h : t.moveTeam? before after = some t')
    (sane : t.Sane) (grows : before ≤ after) (leg : Nat) : t.teamsOf leg ≤ t'.teamsOf leg := by
  refine teamsOf_le_of_shift sane (fun c => ?_) (TeamClass.least_ofSize_mono grows) leg
  have hmove := get_of_moveTeam? h (.team c)
  simpa only [TallyKind.team.injEq, eq_comm (a := c)] using hmove

end Tallies

/-! ### Measures -/

/-- **All measures of a record are at least those of another**, as far as requirements look at them. -/
structure Record.MeasuresLe (r r' : Record) : Prop where
  /-- The own stake is. -/
  selfStake : r.selfStake.units ≤ r'.selfStake.units
  /-- The team stake is. -/
  teamStake : r.teamStake.units ≤ r'.teamStake.units
  /-- The first line is. -/
  firstLine : r.tallies.firstLine.toInt ≤ r'.tallies.firstLine.toInt
  /-- The count by three is. -/
  byThree : r.tallies.firstLineByThree.toInt ≤ r'.tallies.firstLineByThree.toInt
  /-- The numbers of teams are. -/
  teams : ∀ leg, r.tallies.teamsOf leg ≤ r'.tallies.teamsOf leg

namespace Record.MeasuresLe

variable {r r₁ r' : Record}

/-- All measures of a record are at least its own. -/
theorem refl (r : Record) : r.MeasuresLe r :=
  ⟨Nat.le_refl _, Nat.le_refl _, Int.le_refl _, Int.le_refl _, fun _ => Nat.le_refl _⟩

/-- Measures at least those of a record that has at least those of another are at least those of the other. -/
theorem trans (h : r.MeasuresLe r₁) (h' : r₁.MeasuresLe r') : r.MeasuresLe r' where
  selfStake := Nat.le_trans h.selfStake h'.selfStake
  teamStake := Nat.le_trans h.teamStake h'.teamStake
  firstLine := Int.le_trans h.firstLine h'.firstLine
  byThree := Int.le_trans h.byThree h'.byThree
  teams leg := Nat.le_trans (h.teams leg) (h'.teams leg)

/-- Equal measures are at least each other. -/
theorem of_eq (h : r'.measures = r.measures) : r.MeasuresLe r' := by
  simp only [measures, Prod.mk.injEq] at h
  obtain ⟨hself, hteam, htallies⟩ := h
  refine ⟨?_, ?_, ?_, ?_, fun leg => ?_⟩
  · rw [hself]
  · rw [hteam]
  · rw [htallies]
  · rw [htallies]
  · rw [htallies]

end Record.MeasuresLe

/-- **Whoever measures up to a record** meets what the record meets. -/
theorem Status.metBy_mono {r r' : Record} (h : r.MeasuresLe r') {s : Status}
    (hmet : s.metBy r = true) : s.metBy r' = true := by
  refine metBy_iff.mpr fun q hq => ?_
  obtain ⟨hteam, hself, hshape⟩ := metBy_iff.mp hmet q hq
  refine ⟨Nat.le_trans hteam (Amount.displayUnits_mono h.teamStake),
    Nat.le_trans hself (Amount.displayUnits_mono h.selfStake), ?_⟩
  have hline := Int.toNat_le_toNat h.firstLine
  have hthree := Int.toNat_le_toNat h.byThree
  cases hq' : q.shape with
  | unasked => trivial
  | three =>
      rw [hq'] at hshape
      exact Nat.le_trans hshape hline
  | threeByThree =>
      rw [hq'] at hshape
      exact Nat.le_trans hshape hthree
  | core leg =>
      rw [hq'] at hshape
      exact ⟨Nat.le_trans hshape.1 (h.teams leg), Nat.le_trans hshape.2 hthree⟩

/-! ### Climbing -/

namespace Cascade

variable {r r' : Record} {s : Status}

/-- The tiers above a tier are the next one and those above that. -/
theorem filter_earned_of_next? {t : Status} (h : s.next? = some t) :
    (Status.earned.filter fun u => s < u) = t :: Status.earned.filter fun u => t < u := by
  cases s with
  | mega => contradiction
  | _ =>
      obtain rfl := Option.some.inj h
      decide

/-- A record stays at a tier if it fails the requirement of the next one. -/
theorem climb_eq_self (stops : ∀ t, s.next? = some t → t.metBy r = false) : climb r s = s := by
  cases hnext : s.next? with
  | none =>
      obtain rfl : s = .mega := by cases s <;> first | rfl | contradiction
      rfl
  | some t =>
      rw [climb, filter_earned_of_next? hnext, List.takeWhile_cons_of_neg (by simp [stops t hnext])]
      rfl

/-- A record climbs over a tier whose requirement it meets. -/
theorem climb_of_met {t : Status} (hnext : s.next? = some t) (hmet : t.metBy r = true) :
    climb r s = climb r t := by
  rw [climb, climb, filter_earned_of_next? hnext, List.takeWhile_cons_of_pos (by simpa using hmet),
    List.getLastD_cons]

/-- **Climbing twice**, the second time with larger measures, is climbing once. The induction is on the
tiers above. -/
theorem climb_climb (h : r.MeasuresLe r') : climb r' (climb r s) = climb r' s := by
  have hall : ∀ n s, 8 - s.rank = n → climb r' (climb r s) = climb r' s := by
    intro n
    induction n with
    | zero =>
        intro s hn
        have hle := s.rank_le
        have hnone : s.next? = none := by
          rw [Status.next?, show s.rank = 8 by omega]
          rfl
        rw [climb_eq_self (r := r) fun t ht => by rw [hnone] at ht; contradiction]
    | succ n ih =>
        intro s hn
        obtain ⟨t, ht⟩ := Status.exists_rank_eq (show s.rank + 1 ≤ 8 by omega)
        have hnext : s.next? = some t := by rw [Status.next?, ← ht, Status.ofRank?_rank]
        cases hmet : t.metBy r with
        | false =>
            rw [climb_eq_self (r := r) fun u hu => by
              rw [hnext] at hu
              exact Option.some.inj hu ▸ hmet]
        | true =>
            rw [climb_of_met hnext hmet, climb_of_met hnext (Status.metBy_mono h hmet)]
            exact ih t (by omega)
  exact hall _ s rfl

end Cascade

end ReferralForest

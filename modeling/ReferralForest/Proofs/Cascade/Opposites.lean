import ReferralForest.Proofs.Cascade.Succeeding
import ReferralForest.Proofs.Forest.Compare

/-!
# Opposite Changes

Every shift of a counter has an opposite one, which goes through where the shift did. So what an account
tells its referrer when its record changes, it takes back when its record changes back, even if none of
the counts is right.

The border of three is tested for one count when a referral becomes active and for another when it ceases
to be: the two tests agree on the same step, taken in opposite directions.

## Main definitions

* `Tallies.Undoes` — a change of tallies that takes another one back.
* `Record.tellsTeam`, `Record.tellsThree`, `Record.tells` — what an account tells its referrer.

## Main statements

* `Tallies.shiftChild?_neg`, `Tallies.moveTeam?_symm`, `Record.shiftGeneration?_neg` — shifts are taken
  back.
* `Record.crosses_not` — the border of three is crossed both ways at the same count.
* `Record.undoes_tells` — what an account tells is taken back.
-/

namespace ReferralForest

open Cascade (flipSign)

/-! ### Opposite shifts -/

/-- A count that is there is in the range of counts. -/
theorem fitsInt64_toInt (n : Int64) : FitsInt64 n.toInt := ⟨Int64.minValue_le_toInt n, Int64.toInt_le n⟩

/-- A count that has been moved can be moved back. -/
theorem countShift?_neg {n n' : Int64} {delta : Int} (h : countShift? n delta = some n') :
    countShift? n' (-delta) = some n := by
  have hback : n'.toInt + -delta = n.toInt := by
    rw [toInt_of_countShift? h]
    omega
  have hrange : Int64.minValue.toInt ≤ n.toInt ∧ n.toInt ≤ Int64.maxValue.toInt := fitsInt64_toInt n
  simp only [countShift?, hback, if_pos hrange, Int64.ofInt_toInt]

/-- A counter that has been moved can be moved back. -/
theorem counterShift?_neg {n n' : UInt64} {delta : Int} (h : counterShift? n delta = some n') :
    counterShift? n' (-delta) = some n := by
  have hmoved := toNat_of_counterShift? h
  have hback : (n'.toNat : Int) + -delta = n.toNat := by omega
  have hrange : (0 : Int) ≤ n.toNat ∧ (n.toNat : Int) < UInt64.size :=
    ⟨Int.natCast_nonneg _, Int.ofNat_lt.mpr n.toNat_lt⟩
  simp only [counterShift?, hback, if_pos hrange, Int.toNat_natCast, UInt64.ofNat_toNat]

/-- **Moving the counter of a generation back.** -/
theorem Record.shiftGeneration?_neg {r r' : Record} {generation : Nat} {delta : Int}
    (h : r.shiftGeneration? generation delta = some r') :
    r'.shiftGeneration? generation (-delta) = some r := by
  obtain ⟨counter, moved, hcounter, hshift, rfl⟩ := Cascade.shiftGeneration?_eq_some h
  obtain ⟨hlt, hget⟩ := List.getElem?_eq_some_iff.mp hcounter
  have hmoved : (r.generations.set generation moved)[generation]? = some moved :=
    List.getElem?_set_self hlt
  have hback : r.generations.set generation counter = r.generations := by
    rw [← hget]
    exact List.set_getElem_self hlt
  simp only [Record.shiftGeneration?, hmoved, Option.bind_eq_bind, Option.bind_some,
    counterShift?_neg hshift, List.set_set, hback]
  rfl

/-- Counting a generation has nothing to do with the tallies. -/
theorem Record.shiftGeneration?_tallies (r : Record) (t : Tallies) (generation : Nat) (delta : Int) :
    { r with tallies := t }.shiftGeneration? generation delta =
      (r.shiftGeneration? generation delta).map fun r => { r with tallies := t } := by
  simp only [shiftGeneration?, Option.bind_eq_bind, Option.map_bind, Function.comp_def, Option.pure_def,
    Option.map_some]

/-- Counting a generation has nothing to do with the flag. -/
theorem Record.shiftGeneration?_active (r : Record) (active : Bool) (generation : Nat) (delta : Int) :
    { r with active }.shiftGeneration? generation delta =
      (r.shiftGeneration? generation delta).map fun r => { r with active } := by
  simp only [shiftGeneration?, Option.bind_eq_bind, Option.map_bind, Function.comp_def, Option.pure_def,
    Option.map_some]

namespace Tallies

variable {t t' : Tallies} {delta : Int} {size before after : Nat}

/-- Moving the count of a size class back. -/
theorem shiftTeam?_neg (h : t.shiftTeam? size delta = some t') :
    t'.shiftTeam? size (-delta) = some t := by
  have hmoved := get_of_shiftTeam? h
  have hfits : FitsInt64 ((t'.get (.team (.ofSize size))).toInt + -delta) := by
    rw [hmoved, if_pos rfl, Int.add_neg_cancel_right]
    exact fitsInt64_toInt _
  obtain ⟨u, hu⟩ := exists_shiftTeam? hfits
  have hsame : u = t := ext_get fun k => by
    rw [get_of_shiftTeam? hu, hmoved]
    split <;> omega
  rw [hu, hsame]

/-- **Counting a child back** in or out of the first line. -/
theorem shiftChild?_neg {three : Bool} (h : t.shiftChild? size three delta = some t') :
    t'.shiftChild? size three (-delta) = some t := by
  have hmoved := get_of_shiftChild? h
  have hfits : ∀ k, FitsInt64 ((t'.get k).toInt +
      if k = .firstLine ∨ k = .byThree ∧ three = true ∨ k = .team (.ofSize size) then -delta
      else 0) := by
    intro k
    have hback : (t'.get k).toInt + (if k = .firstLine ∨ k = .byThree ∧ three = true ∨
        k = .team (.ofSize size) then -delta else 0) = (t.get k).toInt := by
      rw [hmoved]
      split <;> omega
    rw [hback]
    exact fitsInt64_toInt _
  obtain ⟨u, hu⟩ := exists_shiftChild? hfits
  have hsame : u = t := ext_get fun k => by
    rw [get_of_shiftChild? hu, hmoved]
    split <;> omega
  rw [hu, hsame]

/-- **Moving a team back** to the size class it comes from. -/
theorem moveTeam?_symm (h : t.moveTeam? before after = some t') :
    t'.moveTeam? after before = some t := by
  simp only [moveTeam?, Option.bind_eq_bind, Option.bind_eq_some_iff] at h ⊢
  obtain ⟨t₁, hout, hin⟩ := h
  exact ⟨t₁, shiftTeam?_neg hin, shiftTeam?_neg hout⟩

/-- Moving a team has nothing to do with the count by three. -/
theorem moveTeam?_byThree (t : Tallies) (before after : Nat) (n : Int64) :
    { t with firstLineByThree := n }.moveTeam? before after =
      (t.moveTeam? before after).map fun t => { t with firstLineByThree := n } := by
  have hshift : ∀ (t : Tallies) (size : Nat) (delta : Int),
      { t with firstLineByThree := n }.shiftTeam? size delta =
        (t.shiftTeam? size delta).map fun t => { t with firstLineByThree := n } := by
    intro t size delta
    simp only [shiftTeam?]
    split_ifs <;> simp only [Option.map_map] <;> rfl
  simp only [moveTeam?, Option.bind_eq_bind, hshift, Option.bind_map, Option.map_bind]
  exact Option.bind_congr fun t _ => hshift t _ _

/-! ### Messages -/

/-- **A change of tallies that takes another one back**, wherever that goes through. -/
def Undoes (told told' : Tallies → Option Tallies) : Prop := ∀ t t', told t = some t' → told' t' = some t

end Tallies

namespace Record

variable {r r' : Record} {active : Bool}

/-- **What an account tells its referrer** when its record changes: if it is active and its team changes
its size, the team moves from one size class to another. -/
def tellsTeam (r r' : Record) (t : Tallies) : Option Tallies :=
  if r'.active ∧ r.activeTeamSize ≠ r'.activeTeamSize then
    t.moveTeam? r.activeTeamSize r'.activeTeamSize
  else some t

/-- Whether the parent of a flipped account crosses the border of three: it is active, and the count of
its active referrals has just come to it or just fallen below it. -/
def crosses (active : Bool) (r' : Record) : Bool :=
  r'.active && r'.tallies.firstLine.toInt == (if active then (byThree : Int) else byThree - 1)

/-- **What the parent of a flipped account tells its own referrer** first: it counts by three from now on,
or no longer, if it crosses the border. -/
def tellsThree (active : Bool) (r' : Record) (t : Tallies) : Option Tallies :=
  if r'.crosses active then t.shiftByThree? (flipSign active) else some t

/-- Nothing is told about a team that keeps its size, or whose account is not active. -/
theorem tellsTeam_of_stays (h : ¬ (r'.active ∧ r.activeTeamSize ≠ r'.activeTeamSize)) :
    r.tellsTeam r' = some :=
  funext fun _ => if_neg h

/-- What is told about a team that changes its size. -/
theorem tellsTeam_of_moves (h : r'.active ∧ r.activeTeamSize ≠ r'.activeTeamSize) :
    r.tellsTeam r' = Tallies.moveTeam? r.activeTeamSize r'.activeTeamSize :=
  funext fun _ => if_pos h

/-- Nothing is told of a count of three that is not crossed. -/
theorem tellsThree_of_stays (h : r'.crosses active = false) : r'.tellsThree active = some :=
  funext fun _ => if_neg (by simp [h])

/-- What is told of a count of three that is crossed. -/
theorem tellsThree_of_crosses (h : r'.crosses active = true) :
    r'.tellsThree active = Tallies.shiftByThree? (flipSign active) :=
  funext fun _ => if_pos h

/-- What is told of a count of three depends on the flag and the tallies. -/
theorem tellsThree_congr (same : r'.active = r.active) (tallies : r'.tallies = r.tallies) :
    r'.tellsThree active = r.tellsThree active := by
  funext t
  rw [tellsThree, tellsThree, crosses, crosses, same, tallies]

/-- What is told about a team is taken back by what is told when the record changes back. -/
theorem undoes_tellsTeam (same : r'.active = r.active) :
    Tallies.Undoes (r.tellsTeam r') (r'.tellsTeam r) := by
  intro t t' h
  rw [tellsTeam, same] at h
  rw [tellsTeam]
  split at h
  next hmoved => rw [if_pos ⟨hmoved.1, hmoved.2.symm⟩, Tallies.moveTeam?_symm h]
  next hstays => rw [if_neg fun hmoved => hstays ⟨hmoved.1, hmoved.2.symm⟩, Option.some.inj h]

/-- What is told about a team leaves the count by three alone. -/
theorem tellsTeam_byThree (r r' : Record) (t : Tallies) (n : Int64) :
    r.tellsTeam r' { t with firstLineByThree := n } =
      (r.tellsTeam r' t).map fun t => { t with firstLineByThree := n } := by
  rw [tellsTeam, tellsTeam]
  split
  · exact t.moveTeam?_byThree _ _ n
  · rfl

/-- The opposite flip has the opposite sign. -/
theorem flipSign_not (active : Bool) : flipSign (!active) = -flipSign active := by
  cases active <;> rfl

/-- **The border of three is crossed both ways** at the same count. -/
theorem crosses_not (same : r'.active = r.active)
    (moved : r'.tallies.firstLine.toInt = r.tallies.firstLine.toInt + flipSign active) :
    r.crosses (!active) = r'.crosses active := by
  rw [crosses, crosses, same, moved]
  congr 1
  rw [Bool.eq_iff_iff, beq_iff_eq, beq_iff_eq]
  cases active <;> simp only [flipSign, Bool.not_true, Bool.not_false, if_true, if_false,
    Bool.false_eq_true] <;> omega

/-- What the flip of a record leaves alone: all but the flag and the counter of the account itself. -/
theorem same_of_flip (flipped : { r with active }.shiftGeneration? 0 (flipSign active) = some r') :
    r'.active = active ∧ r'.referrer = r.referrer ∧ r'.tallies = r.tallies ∧
      r'.generations.length = r.generations.length ∧ r'.activeTeamSize = r.activeTeamSize := by
  obtain ⟨counter, moved, -, -, rfl⟩ := Cascade.shiftGeneration?_eq_some flipped
  exact ⟨rfl, rfl, rfl, List.length_set, activeTeamSize_set_zero (r := { r with active }) moved⟩

/-- **Flipping a record back.** -/
theorem flip_neg (flips : r.active ≠ active)
    (flipped : { r with active }.shiftGeneration? 0 (flipSign active) = some r') :
    { r' with active := !active }.shiftGeneration? 0 (flipSign (!active)) = some r := by
  have hactive : (!active) = r.active := (Bool.eq_not.mpr flips).symm
  rw [shiftGeneration?_active, flipSign_not, shiftGeneration?_neg flipped, Option.map_some, hactive]

/-- **What an account tells its referrer** when a flip reaches it: what has become of its team and, if it is
the parent of the flipped account, whether it counts by three. -/
def tells (active : Bool) (generation : Nat) (r r' : Record) (t : Tallies) : Option Tallies :=
  (if generation = 1 then r'.tellsThree active t else some t).bind (r.tellsTeam r')

/-- The parent of the flipped account tells both. -/
theorem tells_one : r.tells active 1 r' = fun t => (r'.tellsThree active t).bind (r.tellsTeam r') := rfl

/-- An ancestor further up tells what has become of its team. -/
theorem tells_of_ne {generation : Nat} (h : generation ≠ 1) :
    r.tells active generation r' = r.tellsTeam r' := by
  funext t
  rw [tells, if_neg h, Option.bind_some]

/-- What the parent of a flipped account tells is taken back when the account flips back. The two messages
concern different counts, so their order does not matter. -/
theorem undoes_tells_one (same : r'.active = r.active)
    (moved : r'.tallies.firstLine.toInt = r.tallies.firstLine.toInt + flipSign active) :
    Tallies.Undoes (r.tells active 1 r') (r'.tells (!active) 1 r) := by
  intro t t' h
  rw [tells_one] at h ⊢
  obtain ⟨t₁, hthree, hteam⟩ := Option.bind_eq_some_iff.mp h
  dsimp only
  rw [tellsThree, crosses_not same moved, flipSign_not]
  rw [tellsThree] at hthree
  split at hthree
  next hcrossed =>
      obtain ⟨n, hn, rfl⟩ := Option.map_eq_some_iff.mp hthree
      rw [tellsTeam_byThree] at hteam
      obtain ⟨u, hu, rfl⟩ := Option.map_eq_some_iff.mp hteam
      have hteam' := undoes_tellsTeam same t u hu
      rw [if_pos hcrossed, Tallies.shiftByThree?, countShift?_neg hn, Option.map_some, Option.bind_some]
      exact (r'.tellsTeam_byThree r u t.firstLineByThree).trans (by rw [hteam', Option.map_some])
  next hstays =>
      obtain rfl := Option.some.inj hthree
      rw [if_neg hstays, Option.bind_some, undoes_tellsTeam same t t' hteam]

/-- **What an account tells** is taken back by what it tells when its record changes back. -/
theorem undoes_tells {generation : Nat} (same : r'.active = r.active) (moved : generation = 1 →
      r'.tallies.firstLine.toInt = r.tallies.firstLine.toInt + flipSign active) :
    Tallies.Undoes (r.tells active generation r') (r'.tells (!active) generation r) := by
  by_cases hparent : generation = 1
  · rw [hparent]
    exact undoes_tells_one same (moved hparent)
  · rw [tells_of_ne hparent, tells_of_ne hparent]
    exact undoes_tellsTeam same

end Record

end ReferralForest

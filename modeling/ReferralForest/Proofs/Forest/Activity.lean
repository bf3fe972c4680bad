import ReferralForest.Proofs.Forest.History
import ReferralForest.Proofs.Forest.Recount

/-!
# The Activity Counts

The counts about active accounts are maintained by the flips of single accounts and never recomputed.
After every history they are what a recount of the whole forest gives.

The invariant is that the counts are right. The flip of an account breaks it, and its cascade restores
it step by step: what is owed to the generations of the ancestors is paid one level at a time, and
what is owed to the tallies of one account is paid at once, which may leave something owed to the
tallies of its referrer, since the account's own weight there may have changed.

## Main definitions

* `Roster.Recounted`, `Roster.Spreading` — the counts are right, or right up to what is owed.
* `Store.ActivityRecounted` — the counts a store holds are those of a recount.

## Main statements

* `Cascade.recounted_of_setActive`, `Cascade.recounted_of_changeStake` — a cascade keeps the counts
  right.
* `Forest.activityRecounted_after` — the counts are right after every history.
-/

namespace ReferralForest

namespace Record

variable {r r' : Record}

/-- The kinds for which an account counts. -/
theorem countsFor_iff (r : Record) (k : TallyKind) : r.countsFor k = true ↔
    k = .firstLine ∨ k = .byThree ∧ decide ((byThree : Int) ≤ r.tallies.firstLine.toInt) = true ∨
      k = .team (.ofSize r.activeTeamSize) := by
  cases k <;> simp [countsFor, eq_comm]

/-- Records that differ in nothing that is counted have the same weight. -/
theorem weight_congr (active : r'.active = r.active) (tallies : r'.tallies = r.tallies)
    (generations : r'.generations = r.generations) (k : TallyKind) : r'.weight k = r.weight k := by
  have hsize : r'.activeTeamSize = r.activeTeamSize := by
    rw [activeTeamSize, activeTeamSize, activeBetween, activeBetween, generations]
  have hcounts : r'.countsFor k = r.countsFor k := by
    cases k <;> simp only [countsFor, tallies, hsize]
  rw [weight, weight, active, hcounts]

/-- When its tallies change, an account's weight changes in the kind by three at most. -/
theorem weight_sub_of_tallies (r r' : Record) (active : r'.active = r.active)
    (generations : r'.generations = r.generations) (k : TallyKind) :
    r'.weight k - r.weight k = if r.active = true ∧ k = .byThree then
      (if (byThree : Int) ≤ r'.tallies.firstLine.toInt then 1 else 0) -
        (if (byThree : Int) ≤ r.tallies.firstLine.toInt then 1 else 0) else 0 := by
  have hsize : r'.activeTeamSize = r.activeTeamSize := by
    rw [activeTeamSize, activeTeamSize, activeBetween, activeBetween, generations]
  rw [weight, weight, active]
  cases r.active with
  | false => simp
  | true => cases k <;> simp [countsFor, hsize]

/-- When its generations change, an account's weight changes with the class of its team. -/
theorem weight_sub_of_generations (r r' : Record) (active : r'.active = r.active)
    (tallies : r'.tallies = r.tallies) (k : TallyKind) : r'.weight k - r.weight k = if r.active = true then
      (if k = .team (.ofSize r'.activeTeamSize) then 1 else 0) -
        (if k = .team (.ofSize r.activeTeamSize) then 1 else 0) else 0 := by
  rw [weight, weight, active]
  cases r.active with
  | false => simp
  | true => cases k <;> simp [countsFor, tallies, eq_comm]

/-- The account itself is not a member of its team. -/
theorem activeTeamSize_set_zero (n : UInt64) :
    { r with generations := r.generations.set 0 n }.activeTeamSize = r.activeTeamSize := by
  rw [activeTeamSize, activeTeamSize, activeBetween, activeBetween, List.drop_set_of_lt (by decide)]

end Record

namespace Roster

/-- **The counts are right.** -/
structure Recounted (m : Roster) : Prop where
  full : Full m
  forest : IsForest m
  counted : Counted m
  tallied : Tallied m

/-- **The counts are right up to what a flip owes**: the generations from a level on up, and a
correction to the tallies of one account. -/
structure Spreading (m : Roster) (x : AccountId) (delta : Int) (level : Nat)
    (owner : Option AccountId) (owed : TallyKind → Int) : Prop where
  full : Full m
  forest : IsForest m
  counted : CountedFrom m x delta level
  tallied : TalliedUpTo m owner owed

variable {m : Roster} {a x : AccountId} {r r' : Record} {delta : Int} {level : Nat}
  {owner : Option AccountId} {owed owed' : TallyKind → Int}

/-- Paying what is owed to the tallies of an account leaves its change of weight owed to its
referrer. -/
theorem Spreading.pay (h : Spreading m x delta level (some a) owed) (found : m.get? a = some r)
    (r' : Record) (active : r'.active = r.active) (same : r'.referrer = r.referrer)
    (generations : r'.generations = r.generations)
    (paid : ∀ k, (r'.tallies.get k).toInt = (r.tallies.get k).toInt + owed k) :
    Spreading (m.insert a r') x delta level r.referrer fun k => r'.weight k - r.weight k where
  full := h.full.insert (generations ▸ h.full a r found)
  forest := h.forest.put found same
  counted := h.counted.put found active same generations
  tallied := h.tallied.put h.forest found r' same paid

/-- Counting the flip at one ancestor leaves the ancestor's change of weight owed to its referrer. -/
theorem Spreading.advance (h : Spreading m x delta level (some a) fun _ => 0)
    (found : m.get? a = some r) (reached : ancestor? m level x = some a) (r' : Record)
    (active : r'.active = r.active) (same : r'.referrer = r.referrer)
    (tallies : r'.tallies = r.tallies) {counter moved : UInt64}
    (old : r.generations[level]? = some counter) (shift : (moved.toNat : Int) = counter.toNat + delta)
    (new : r'.generations = r.generations.set level moved) :
    Spreading (m.insert a r') x delta (level + 1) r.referrer fun k =>
      r'.weight k - r.weight k where
  full := h.full.insert (by rw [new, List.length_set]; exact h.full a r found)
  forest := h.forest.put found same
  counted := h.counted.advance found reached active same old shift new
  tallied := h.tallied.put h.forest found r' same fun k => by rw [tallies, Int.add_zero]

/-- What is owed may be said in other words. -/
theorem Spreading.congr (h : Spreading m x delta level owner owed) (same : ∀ k, owed' k = owed k) :
    Spreading m x delta level owner owed' :=
  { h with tallied := h.tallied.congr same }

/-- Once a correction is settled, nothing is owed to anybody. -/
theorem Spreading.settle (h : Spreading m x delta level owner owed)
    (settled : (∀ k, owed k = 0) ∨ ∀ a, owner = some a → m.get? a = none)
    (owner' : Option AccountId) : Spreading m x delta level owner' fun _ => 0 :=
  { h with tallied := (h.tallied.tallied settled).upTo owner' }

/-- **The flip of an account** owes one at each generation above, and to the tallies of its referrer
one for each kind for which the account counts. -/
theorem Recounted.flip (h : Recounted m) (found : m.get? a = some r) {active : Bool}
    (flips : r.active ≠ active)
    (shift : { r with active }.shiftGeneration? 0 (Cascade.flipSign active) = some r') :
    Spreading (m.insert a r') a (Cascade.flipSign active) 1 r.referrer fun k =>
      if r'.countsFor k then Cascade.flipSign active else 0 := by
  obtain ⟨counter, moved, hcounter, hmoved, rfl⟩ := Cascade.shiftGeneration?_eq_some shift
  have hself : (m.insert a { r with active }).get? a = some { r with active } :=
    SortedMap.get?_insert_self m a _
  have hcounted : CountedFrom ((m.insert a { r with active }).insert a
      { r with active, generations := r.generations.set 0 moved }) a (Cascade.flipSign active) 1 :=
    (h.counted.flip found flips).advance hself ancestor?_zero rfl rfl hcounter
      (toNat_of_counterShift? hmoved) rfl
  rw [SortedMap.insert_insert] at hcounted
  refine ⟨h.full.insert ?_, h.forest.put found rfl, hcounted, ?_⟩
  · rw [List.length_set]
    exact h.full a r found
  · have hput := (h.tallied.upTo (some a)).put h.forest found
      { r with active, generations := r.generations.set 0 moved } rfl fun k => by rw [Int.add_zero]
    refine hput.congr fun k => ?_
    have hcounts : { r with active, generations := r.generations.set 0 moved }.countsFor k =
        r.countsFor k := by
      cases k with
      | team c =>
          have hteam := Record.activeTeamSize_set_zero (r := { r with active }) moved
          exact congrArg (fun size => decide (TeamClass.ofSize size = c)) hteam
      | _ => rfl
    have hbefore : r.active = !active := by cases hr : r.active <;> cases active <;> simp_all
    simp only [Record.weight, hcounts, hbefore]
    cases active <;> cases r.countsFor k <;> rfl

/-- To nobody anything can be owed. -/
theorem Spreading.of_nobody (h : Spreading m x delta level none owed) :
    Spreading m x delta level none owed' :=
  { h with tallied := h.tallied }

/-- When no ancestor with a record is left to be reached, the counts are right. -/
theorem Spreading.recounted (h : Spreading m x delta level owner fun _ => 0)
    (done : ∀ g a, level ≤ g → g < generationCount → ancestor? m g x = some a → m.get? a = none) :
    Recounted m where
  full := h.full
  forest := h.forest
  counted := h.counted.counted h.full done
  tallied := h.tallied.tallied (.inl fun _ => rfl)

end Roster

/-! ### Cascades -/

namespace Cascade

open Roster

variable {β : Type} {checkAt : Option Timestamp} {D D' : Draft} {a x : AccountId} {delta : Int}
  {level : Nat} {owed : TallyKind → Int}

/-- **A change that pays what is owed** to the tallies of an account, and leaves its first line, leaves
nothing owed. -/
theorem spreading_of_pay {change : Record → Cascade (β × Record)} {result : Option β}
    (plain : Plain (Edit.counts checkAt checkAt) change)
    (pays : ∀ D r b r₁ D₁, (change r).Yields D (b, r₁) D₁ → ∃ tallies, r₁ = { r with tallies } ∧
      ∀ k, (tallies.get k).toInt = (r.tallies.get k).toInt + owed k)
    (firstLine : owed .firstLine = 0) (h : Spreading D.records x delta level (some a) owed)
    (hupdate : (update checkAt a change).Yields D result D') :
    Spreading D'.records x delta level none fun _ => 0 := by
  obtain ⟨hnone, -, rfl⟩ | ⟨r, b, r₁, D₁, s, t, hr, hchange, -, hrecords⟩ :=
    records_of_update plain h.full hupdate
  · exact h.settle (.inr fun b hb => Option.some.inj hb ▸ hnone) none
  · obtain ⟨tallies, rfl, hpaid⟩ := pays D r b r₁ D₁ hchange
    have hpay := h.pay hr { r with tallies, status := s, downgradeAt := t } rfl rfl rfl hpaid
    rw [hrecords]
    refine hpay.settle (.inl fun k => ?_) none
    have hline : tallies.firstLine.toInt = r.tallies.firstLine.toInt := by
      have := hpaid .firstLine
      rwa [firstLine, Int.add_zero] at this
    have hweight := Record.weight_sub_of_tallies r
      { r with tallies, status := s, downgradeAt := t } rfl rfl k
    refine hweight.trans ?_
    rw [hline, Int.sub_self, ite_self]

/-- **A ripple** pays what crossing the border of three leaves owed. -/
theorem spreading_of_ripples {active : Bool} {crossed : Option AccountId}
    (h : Spreading D.records x (flipSign active) level crossed fun k =>
      if k = .byThree then flipSign active else 0)
    (hripples : Ripples checkAt active crossed D D') :
    Spreading D'.records x (flipSign active) level none fun _ => 0 := by
  cases crossed with
  | none =>
      rw [show D' = D from hripples]
      exact h.settle (.inr nofun) none
  | some grandparent =>
      obtain ⟨v, hupdate⟩ := hripples
      refine spreading_of_pay (plain_countByThree (flipSign active)) ?_ (by simp) h hupdate
      intro D r b r₁ D₁ hchange
      obtain ⟨-, tallies, htallies, rfl⟩ := yields_countByThree hchange
      exact ⟨tallies, rfl, Tallies.get_of_shiftByThree? htallies⟩

/-- What a stride of the walk over the generations leaves owed to the tallies of the next ancestor. -/
def Stride.leaves (stride : Stride) (k : TallyKind) : Int :=
  match stride.moved with
  | some (before, after) =>
    (if k = .team (.ofSize after) then 1 else 0) - (if k = .team (.ofSize before) then 1 else 0)
  | none => 0

/-- **The correction after a stride** pays what the stride leaves owed. -/
theorem spreading_of_corrects {stride : Stride}
    (h : Spreading D.records x delta level stride.next stride.leaves)
    (hcorrects : stride.Corrects checkAt D D') :
    Spreading D'.records x delta level none fun _ => 0 := by
  obtain ⟨_ | next, _ | ⟨before, after⟩⟩ := stride
  case some.some =>
      obtain ⟨v, hupdate⟩ := hcorrects
      refine spreading_of_pay (plain_reclassify before after) ?_ (by simp [Stride.leaves]) h hupdate
      intro D r b r₁ D₁ hchange
      obtain ⟨-, tallies, htallies, rfl⟩ := yields_reclassify hchange
      exact ⟨tallies, rfl, Tallies.get_of_moveTeam? htallies⟩
  case some.none =>
      rw [show D' = D from hcorrects]
      exact h.settle (.inl fun _ => rfl) none
  all_goals
    rw [show D' = D from hcorrects]
    exact h.settle (.inr nofun) none

/-- **A stride of the walk over the generations** pays what is owed to one generation. -/
theorem spreading_of_countDescendant {ancestor : AccountId} {result : Option Stride}
    (h : Spreading D.records x delta level none fun _ => 0)
    (reached : ancestor? D.records level x = some ancestor)
    (hupdate : (update checkAt ancestor (countDescendant level delta)).Yields D result D') :
    (result = none ∧ D' = D ∧ D.records.get? ancestor = none) ∨
      ∃ stride, result = some stride ∧
        Spreading D'.records x delta (level + 1) stride.next stride.leaves ∧
        ancestor? D'.records (level + 1) x = stride.next := by
  have plain : Plain (Edit.counts checkAt checkAt) (countDescendant level delta) :=
    plain_countDescendant level delta
  obtain ⟨hnone, rfl, rfl⟩ | ⟨r, stride, r₁, D₀, s, t, hr, hchange, rfl, hrecords⟩ :=
    records_of_update plain h.full hupdate
  · exact .inl ⟨rfl, rfl, hnone⟩
  · obtain ⟨rfl, hshift, rfl⟩ := yields_countDescendant hchange
    obtain ⟨counter, moved, hcounter, hmoved, rfl⟩ := shiftGeneration?_eq_some hshift
    have hadvance := (h.settle (.inl fun _ => rfl) (some ancestor)).advance hr reached
      { r with generations := r.generations.set level moved, status := s, downgradeAt := t }
      rfl rfl rfl hcounter (toNat_of_counterShift? hmoved) rfl
    rw [← hrecords] at hadvance
    refine .inr ⟨_, rfl, hadvance.congr fun k => ?_, ?_⟩
    · have hweight := Record.weight_sub_of_generations r
        { r with generations := r.generations.set level moved, status := s, downgradeAt := t }
        rfl rfl k
      refine Eq.trans ?_ hweight.symm
      by_cases hmoved : r.active = true ∧ r.activeTeamSize ≠
          { r with generations := r.generations.set level moved }.activeTeamSize
      · rw [Stride.leaves, if_pos hmoved, if_pos hmoved.1]
        rfl
      · rw [Stride.leaves, if_neg hmoved]
        refine (ite_eq_right_iff.mpr fun hactive => sub_eq_zero.mpr ?_).symm
        rw [not_not.mp fun hne => hmoved ⟨hactive, hne⟩]
        rfl
    · have hup := parentOf_walk (walk_update plain h.full hupdate)
      rw [ancestor?_congr hup, ancestor?_succ, reached, Option.bind_some, parentOf_of_get? hr]

/-- **The walk over the generations** pays what is owed to them, level by level. -/
theorem recounted_of_countGenerations {levels : Nat} {start : Option AccountId} {u : Unit}
    (h : Spreading D.records x delta level none fun _ => 0)
    (reached : ancestor? D.records level x = start) (bound : levels + level = generationCount)
    (hcourse : (countGenerations checkAt delta levels level start).Yields D u D') :
    Recounted D'.records := by
  induction levels generalizing level start D with
  | zero =>
      obtain ⟨-, rfl⟩ := yields_done.mp hcourse
      exact h.recounted fun g a hlevel hg _ => by omega
  | succ levels ih =>
      cases start with
      | none =>
          obtain ⟨-, rfl⟩ := yields_done.mp hcourse
          refine h.recounted fun g a hlevel _ hg => ?_
          rw [ancestor?_eq_none_of_le hlevel reached] at hg
          contradiction
      | some ancestor =>
          obtain ⟨result, D₁, hupdate, hrest⟩ := yields_countGenerations_succ hcourse
          obtain ⟨rfl, rfl, hnone⟩ | ⟨stride, rfl, hstride, hnext⟩ :=
            spreading_of_countDescendant h reached hupdate
          · obtain ⟨-, rfl⟩ | ⟨_, _, hresult, -⟩ := hrest
            · refine h.recounted fun g a hlevel _ hg => ?_
              rcases Nat.eq_or_lt_of_le hlevel with rfl | hlt
              · exact Option.some.inj (reached.symm.trans hg) ▸ hnone
              · rw [ancestor?_eq_none_of_get? reached hnone hlt] at hg
                contradiction
            · contradiction
          · obtain ⟨hresult, -⟩ | ⟨_, D₂, hresult, hcorrects, hrest⟩ := hrest
            · contradiction
            obtain rfl := Option.some.inj hresult
            have hup := parentOf_walk (walk_corrects hstride.full hcorrects)
            exact ih (spreading_of_corrects hstride hcorrects) (by rw [ancestor?_congr hup, hnext])
              (by omega) hrest

/-- The border is crossed just when the answer to "at least three?" changes. -/
theorem crosses_border {active : Bool} {before after : Int} (h : after = before + flipSign active) :
    (if (byThree : Int) ≤ after then 1 else 0) - (if (byThree : Int) ≤ before then 1 else 0) =
      if after = (if active then (byThree : Int) else byThree - 1) then flipSign active else 0 := by
  have hthree : (byThree : Int) = 3 := rfl
  rw [hthree]
  cases active <;> simp only [flipSign, if_true, Bool.false_eq_true, if_false] at h ⊢ <;>
    split_ifs <;> omega

/-- **Counting a flipped child** pays what is owed to the tallies of its parent. If the parent crosses
the border of three thereby, that is owed to the grandparent. -/
theorem spreading_of_countChild {active : Bool} {child : Flip} {parent : AccountId}
    {crossed : Option (Option AccountId)}
    (h : Spreading D.records x (flipSign active) level (some parent) fun k =>
      if k = .firstLine ∨ k = .byThree ∧ child.hasThree = true ∨ k = .team (.ofSize child.teamSize)
      then flipSign active else 0)
    (hupdate : (update checkAt parent (countChild child active (flipSign active))).Yields D crossed
      D') :
    Spreading D'.records x (flipSign active) level crossed.join fun k =>
      if k = .byThree then flipSign active else 0 := by
  have plain : Plain (Edit.counts checkAt checkAt) (countChild child active (flipSign active)) :=
    plain_countChild child active (flipSign active)
  obtain ⟨hnone, rfl, rfl⟩ | ⟨r, b, r₁, D₀, s, t, hr, hchange, rfl, hrecords⟩ :=
    records_of_update plain h.full hupdate
  · exact (h.settle (.inr fun a ha => Option.some.inj ha ▸ hnone) none).of_nobody
  · obtain ⟨-, tallies, hshift, rfl, rfl⟩ := yields_countChild hchange
    have hpaid := Tallies.get_of_shiftChild? hshift
    have hpay := h.pay hr { r with tallies, status := s, downgradeAt := t } rfl rfl rfl hpaid
    rw [← hrecords] at hpay
    have hline : tallies.firstLine.toInt = r.tallies.firstLine.toInt + flipSign active :=
      (hpaid .firstLine).trans (by rw [if_pos (.inl rfl)]; rfl)
    have hweight := Record.weight_sub_of_tallies r
      { r with tallies, status := s, downgradeAt := t } rfl rfl
    dsimp only at hweight
    rw [crosses_border hline] at hweight
    rw [Option.join_some]
    by_cases hcrossed : (r.active && tallies.firstLine.toInt ==
        (if active then (byThree : Int) else byThree - 1)) = true
    · rw [if_pos hcrossed]
      rw [Bool.and_eq_true, beq_iff_eq] at hcrossed
      refine hpay.congr fun k => ((hweight k).trans ?_).symm
      simp only [hcrossed, true_and, if_true]
    · rw [if_neg hcrossed]
      rw [Bool.and_eq_true, beq_iff_eq, not_and] at hcrossed
      refine (hpay.settle (.inl fun k => (hweight k).trans ?_) none).of_nobody
      rw [ite_eq_right_iff]
      rintro ⟨hactive, -⟩
      exact if_neg (hcrossed hactive)

/-- What is owed above an account that was flipped. -/
theorem spreading_of_flipRecord {active : Bool} {flipped : Option (Option Flip)} {child : Flip}
    (h : Recounted D.records)
    (hupdate : (update none a (flipRecord active (flipSign active))).Yields D flipped D')
    (flips : flipped.join = some child) :
    (Spreading D'.records a (flipSign active) 1 child.parent fun k =>
      if k = .firstLine ∨ k = .byThree ∧ child.hasThree = true ∨ k = .team (.ofSize child.teamSize)
      then flipSign active else 0) ∧ ancestor? D'.records 1 a = child.parent := by
  obtain ⟨-, rfl, -⟩ | ⟨r, b, r₁, D₀, r₂, L₂, hr, hchange, settles, rfl, hD'⟩ := yields_update hupdate
  · contradiction
  · rw [Record.normalize_of_length (h.full a r hr).ge] at hchange
    cases settles
    obtain ⟨rfl, ⟨-, rfl, -⟩ | ⟨hflips, hshift, rfl⟩⟩ := yields_flipRecord hchange
    · contradiction
    · obtain rfl := Option.some.inj flips
      have hrecords : D'.records = D₀.records.insert a r₁ := congrArg Ledger.records hD'
      have hreferrer : r₁.referrer = r.referrer := by
        obtain ⟨counter, moved, -, -, rfl⟩ := shiftGeneration?_eq_some hshift
        rfl
      rw [hrecords]
      constructor
      · rw [hreferrer]
        exact (h.flip hr hflips hshift).congr fun k => if_congr (r₁.countsFor_iff k).symm rfl rfl
      · rw [ancestor?_one, parentOf_insert_self]

/-- **A spreading flip** pays all that the flip owes. -/
theorem recounted_of_spread {active : Bool} {child : Flip} {parent : AccountId}
    (h : Spreading D.records x (flipSign active) 1 (some parent) fun k =>
      if k = .firstLine ∨ k = .byThree ∧ child.hasThree = true ∨ k = .team (.ofSize child.teamSize)
      then flipSign active else 0)
    (reached : ancestor? D.records 1 x = some parent)
    (hspread : Spread checkAt active child parent D D') : Recounted D'.records := by
  obtain ⟨hcount, hripples, hclimb⟩ := hspread
  next D₁ D₂ crossed u =>
    have hcounted := spreading_of_countChild h hcount
    have hup₁ := parentOf_walk (walk_update (plain_countChild child active _) h.full hcount)
    have hup₂ := parentOf_walk (walk_ripples hcounted.full hripples)
    refine recounted_of_countGenerations (spreading_of_ripples hcounted hripples) ?_ rfl hclimb
    rw [ancestor?_congr (hup₂.trans hup₁), reached]

/-- **Making an account active or inactive** keeps the counts right. -/
theorem recounted_of_setActive {active : Bool} {u : Unit} (h : Recounted D.records)
    (hcourse : (setActive checkAt a active).Yields D u D') : Recounted D'.records := by
  obtain ⟨heq, -⟩ | ⟨r, r₁, D₁, hr, hflips, hshift, hD₁, hrest⟩ := yields_setActive h.full.padded hcourse
  · rw [heq]
    exact h
  · have hflip := h.flip hr hflips hshift
    have hrecords : D₁.records = D.records.insert a r₁ := congrArg Ledger.records hD₁
    have hreferrer : r₁.referrer = r.referrer := by
      obtain ⟨counter, moved, -, -, rfl⟩ := shiftGeneration?_eq_some hshift
      rfl
    rw [← hrecords] at hflip
    have hup : ancestor? D₁.records 1 a = r.referrer := by
      rw [ancestor?_one, hrecords, parentOf_insert_self, hreferrer]
    obtain ⟨hroot, rfl⟩ | ⟨parent, hparent, hspread⟩ := hrest
    · rw [hroot] at hflip hup
      refine (hflip.settle (.inr (by simp)) none).recounted fun g b hlevel _ hg => ?_
      rw [ancestor?_eq_none_of_le hlevel hup] at hg
      contradiction
    · rw [hparent] at hflip hup
      refine recounted_of_spread (hflip.congr fun k => ?_) hup hspread
      exact if_congr (r₁.countsFor_iff k).symm rfl rfl

end Cascade

namespace Roster.Recounted

variable {m : Roster} {a c : AccountId} {r r' : Record}

/-- Where there are no records all counts are right. -/
theorem empty : Recounted .empty where
  full a r hr := by simp at hr
  forest := .empty
  counted a r g n hr _ := by simp at hr
  tallied a r k hr := by simp at hr

/-- A record written over one that differs in nothing that is counted keeps the counts right. -/
theorem put (h : Recounted m) (found : m.get? a = some r) (r' : Record)
    (active : r'.active = r.active) (same : r'.referrer = r.referrer)
    (generations : r'.generations = r.generations) (tallies : r'.tallies = r.tallies) :
    Recounted (m.insert a r') where
  full := h.full.insert (generations ▸ h.full a r found)
  forest := h.forest.put found same
  counted := h.counted.put found active same generations
  tallied := h.tallied.put h.forest found same tallies (Record.weight_congr active tallies generations)

/-- A new account keeps the counts right. -/
theorem put_fresh (h : Recounted m) (fresh : m.get? c = none) {p : Option AccountId} (s : Status)
    (placed : ∀ q, p = some q → m.get? q ≠ none) : Recounted (m.insert c (.fresh p s)) where
  full := h.full.insert (Record.length_fresh p s)
  forest := h.forest.put_fresh fresh placed
  counted := by
    refine h.counted.put_fresh h.forest fresh rfl fun g n hn => ?_
    exact List.eq_of_mem_replicate (List.mem_of_getElem? hn)
  tallied := h.tallied.put_fresh h.forest fresh rfl rfl

end Roster.Recounted

/-- Raising team stakes keeps the counts right. -/
theorem Cascade.recounted_of_raiseTeams {now : Timestamp} {delta : Int} {bound : Nat}
    {start : Option AccountId} {D D' : Draft} {u : Unit} (h : Roster.Recounted D.records)
    (hcourse : (raiseTeams now delta bound start).Yields D u D') : Roster.Recounted D'.records := by
  refine (walk_raiseTeams h.full hcourse).invariant
    (I := fun M => Roster.Recounted M.records) (fun M M' hs hM => ?_) h
  obtain ⟨found, edits, ⟨-, team, rfl⟩, hsettles⟩ := hs
  have hsame := hsettles.records_eq
  obtain ⟨s, t, rfl⟩ := hsettles.exists_eq_update
  rw [Ledger.put, hsame]
  exact hM.put found _ rfl rfl rfl rfl

/-- **A stake change** keeps the counts right. -/
theorem Cascade.recounted_of_changeStake {now : Timestamp} {a : AccountId} {delta : Int} {bound : Nat}
    {D D' : Draft} {u : Unit} (h : Roster.Recounted D.records)
    (hcourse : (changeStake now a delta bound).Yields D u D') : Roster.Recounted D'.records := by
  obtain ⟨-, rfl⟩ | ⟨r, stake, s, t, D₁, D₂, hr, -, hrecords, hraise, hflip⟩ :=
    records_of_changeStake h.full hcourse
  · exact h
  · have hself : Roster.Recounted D₁.records := by
      rw [hrecords]
      exact h.put hr _ rfl rfl rfl rfl
    have hteams := recounted_of_raiseTeams hself hraise
    obtain ⟨-, rfl⟩ | hactive := hflip
    · exact hteams
    · exact recounted_of_setActive hteams hactive

/-- **A move** keeps the counts right. -/
theorem Move.Takes.recounted {mv : Move} {L L' : Ledger} (h : mv.Takes L L')
    (recounted : Roster.Recounted L.records) : Roster.Recounted L'.records := by
  by_cases calm : mv.Calm
  · refine h.records_invariant (fun m c p s hm hnone placed => ?_) (fun m a r s t hm found => ?_) calm
      recounted
    · exact hm.put_fresh hnone s placed
    · exact hm.put found _ rfl rfl rfl rfl
  · cases h with
    | changeStake course => exact Cascade.recounted_of_changeStake (D := L.draft) recounted course
    | setActive course => exact Cascade.recounted_of_setActive (D := L.draft) recounted course
    | _ => exact absurd trivial calm

/-- **The counts a store holds are those of a recount.** Every record has its fifteen counters, each
the number of active accounts at its generation, and its tallies are those of its active referrals; all
this by the activity and the referrers of the accounts alone. -/
def Store.ActivityRecounted (store : Store) : Prop :=
  ∃ m : Roster, store.Holds m ∧ ∀ a r, m.get? a = some r →
    r.generations.map UInt64.toNat = (List.range generationCount).map (m.activeAt a) ∧
    ∀ k, (r.tallies.get k).toInt = m.tally a k

/-- **The counts are right after every history.** -/
theorem Forest.activityRecounted_after {host : Host} (quiet : host.Quiet) (turns : List Turn) :
    (Forest.after host turns).ActivityRecounted := by
  have hall : ∃ L, (World.ofStore (after host turns)).Keeps L ∧ L.InStep ∧
      Roster.Recounted L.records :=
    invariant quiet .empty fun _ _ _ _ _ _ _ _ htakes hcounts => htakes.recounted hcounts
  obtain ⟨L, hkeeps, -, hcounts⟩ := hall
  refine ⟨L.records, holds_of_keeps hkeeps, fun a r found => ⟨?_, fun k => ?_⟩⟩
  · exact hcounts.counted.generations_eq hcounts.full found
  · exact hcounts.tallied.tally_eq hcounts.counted hcounts.full found k

/-- The counts are right after the small history, in which the referral has become active: the root counts
it in the generation below and in the first line. -/
theorem Forest.activityRecounted_after_small :
    Host.standalone.Quiet ∧ (Forest.after Host.standalone SmallHistory.turns).ActivityRecounted ∧
    ((World.ofStore (Forest.after Host.standalone SmallHistory.turns)).run
      (Program.record SmallHistory.root)).1.map (fun r => (r.generations.take 3, r.tallies.firstLine)) =
        .ok ([0, 1, 0], 1) :=
  ⟨Host.quiet_standalone, activityRecounted_after Host.quiet_standalone SmallHistory.turns,
    by decide +kernel⟩

end ReferralForest

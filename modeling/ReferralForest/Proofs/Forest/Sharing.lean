import ReferralForest.Forest.Fees
import ReferralForest.Proofs.Forest.Regular
import ReferralForest.Proofs.Fraction.Rational

/-!
# Sharing a Delegation Out

Each level of the award table goes to the ancestor at that level, if there is one and its tier opens
enough lines; the awards nobody claims are burned. They are summed up level by level, in fractions of
two words. Parameters are accepted if the whole table can be summed up and leaves something, and that
says little about sums over a part of the table: their denominators may be out of range although that of
the whole is not. A split therefore fails, though never for its size, and it fails just where a partial
sum of the unclaimed awards has no fraction.

## Main definitions

* `Roster.payee?` — who claims the award of a level.
* `Roster.feesFrom`, `Roster.unclaimedFrom` — the awards that are claimed, and those that are not.
* `Roster.sharesFrom` — the split they make.
* `Store.SharesOut` — what a store answers when it is asked how delegations are shared out.

## Main statements

* `World.Keeps.run_feeSplit` — a split is what is claimed, and the sum of what is not.
* `Forest.sharesOut_after` — splits after every history.
* `Forest.feeSplit_crowded` — accepted parameters under which a split fails.
-/

namespace ReferralForest

namespace Params

/-- What all awards come to. -/
def award (p : Params) : ℚ := (p.awards.toList.map Fraction.value).sum

/-- The sum of the award table stands for what all awards come to. -/
theorem value_of_totalAward {p : Params} {total : Fraction} (h : p.totalAward = .ok total) :
    total.value = p.award := by
  rw [totalAward] at h
  split at h
  next sum hsum =>
      obtain rfl := Except.ok.inj h
      rw [Fraction.value_of_foldlM_add? hsum, Fraction.value_zero, zero_add, award]
  next => contradiction

/-- Acceptable awards have been summed up, to less than one. -/
theorem exists_totalAward {p : Params} (h : p.validate = .ok ()) :
    ∃ total, p.totalAward = .ok total ∧ total < .one := by
  rw [validate] at h
  split at h
  next => contradiction
  next total htotal =>
      split at h
      next hlt => exact ⟨total, htotal, hlt⟩
      next => contradiction

/-- **Acceptable awards** come to less than the whole. -/
theorem award_lt_one {p : Params} (h : p.validate = .ok ()) : p.award < 1 := by
  obtain ⟨total, htotal, hlt⟩ := exists_totalAward h
  rwa [Fraction.lt_iff, Fraction.value_one, value_of_totalAward htotal] at hlt

end Params

namespace Roster

variable (m : Roster) (a : AccountId)

/-- **Who claims the award of a level**: the ancestor so many levels above the parent, if its tier opens
more lines. -/
def payee? (level : Nat) : Option AccountId := do
  let ancestor ← ancestor? m (level + 1) a
  let r ← m.get? ancestor
  if level < r.status.linesOpened then some ancestor else none

/-- **The awards that are claimed**, from a level on; awards of nothing are left out. -/
def feesFrom (level : Nat) (awards : List Fraction) : List Fee :=
  (awards.zipIdx level).filterMap fun e =>
    (payee? m a e.2).bind fun payee => if e.1.isZero then none else some ⟨payee, e.1⟩

/-- **The awards that nobody claims**, from a level on. -/
def unclaimedFrom (level : Nat) (awards : List Fraction) : List Fraction :=
  ((awards.zipIdx level).filter fun e => (payee? m a e.2).isNone).map Prod.fst

/-- **The split from a level on**, while `burn` is to be burned so far: what is claimed, and the sum of
what is not. -/
def sharesFrom (level : Nat) (awards : List Fraction) (burn : Fraction) : Except Error FeeSplit :=
  match (unclaimedFrom m a level awards).foldlM Fraction.add? burn with
  | some total => .ok ⟨feesFrom m a level awards, total⟩
  | none => .error (.overflow "burn share")

variable {m a} {level : Nat} {share burn : Fraction} {rest : List Fraction}

/-- An award that nobody claims. -/
theorem feesFrom_cons_of_none (h : payee? m a level = none) :
    feesFrom m a level (share :: rest) = feesFrom m a (level + 1) rest := by
  rw [feesFrom, List.zipIdx_cons, List.filterMap_cons_none (by rw [h]; rfl), feesFrom]

/-- An award that is claimed. -/
theorem feesFrom_cons_of_some {payee : AccountId} (h : payee? m a level = some payee) :
    feesFrom m a level (share :: rest) =
      if share.isZero then feesFrom m a (level + 1) rest
      else ⟨payee, share⟩ :: feesFrom m a (level + 1) rest := by
  rw [feesFrom, List.zipIdx_cons]
  split
  next hzero => rw [List.filterMap_cons_none (by rw [h, Option.bind_some, if_pos hzero]), feesFrom]
  next hzero => rw [List.filterMap_cons_some (by rw [h, Option.bind_some, if_neg hzero]), feesFrom]

/-- An award that nobody claims is one of those. -/
theorem unclaimedFrom_cons_of_none (h : payee? m a level = none) :
    unclaimedFrom m a level (share :: rest) = share :: unclaimedFrom m a (level + 1) rest := by
  rw [unclaimedFrom, List.zipIdx_cons, List.filter_cons_of_pos (by rw [h]; rfl), List.map_cons,
    unclaimedFrom]

/-- An award that somebody claims is none of those that nobody claims. -/
theorem unclaimedFrom_cons_of_some {payee : AccountId} (h : payee? m a level = some payee) :
    unclaimedFrom m a level (share :: rest) = unclaimedFrom m a (level + 1) rest := by
  rw [unclaimedFrom, List.zipIdx_cons, List.filter_cons_of_neg (by rw [h]; simp), unclaimedFrom]

/-- An award that nobody claims is added to what is burned. -/
theorem sharesFrom_cons_of_none (h : payee? m a level = none) :
    sharesFrom m a level (share :: rest) burn =
      match burn.add? share with
      | some sum => sharesFrom m a (level + 1) rest sum
      | none => .error (.overflow "burn share") := by
  rw [sharesFrom, unclaimedFrom_cons_of_none h, feesFrom_cons_of_none h, List.foldlM_cons]
  cases burn.add? share <;> rfl

/-- An award that is claimed is one more fee, unless it is nothing. -/
theorem sharesFrom_cons_of_some {payee : AccountId} (h : payee? m a level = some payee) :
    sharesFrom m a level (share :: rest) burn = (sharesFrom m a (level + 1) rest burn).map fun split =>
      if share.isZero then split else { split with fees := ⟨payee, share⟩ :: split.fees } := by
  rw [sharesFrom, sharesFrom, unclaimedFrom_cons_of_some h, feesFrom_cons_of_some h]
  cases (unclaimedFrom m a (level + 1) rest).foldlM Fraction.add? burn with
  | none => rfl
  | some total => cases share.isZero <;> rfl

/-- **Awards are claimed or not**: what is claimed and what is not come to the whole. -/
theorem sum_feesFrom_add_sum_unclaimedFrom (level : Nat) (awards : List Fraction) :
    ((feesFrom m a level awards).map fun fee => fee.ratio.value).sum +
      ((unclaimedFrom m a level awards).map Fraction.value).sum = (awards.map Fraction.value).sum := by
  induction awards generalizing level with
  | nil => simp [feesFrom, unclaimedFrom]
  | cons share rest ih =>
      have hrest := ih (level + 1)
      cases hp : payee? m a level with
      | none =>
          rw [feesFrom_cons_of_none hp, unclaimedFrom_cons_of_none hp, List.map_cons, List.map_cons,
            List.sum_cons, List.sum_cons]
          linarith
      | some payee =>
          rw [feesFrom_cons_of_some hp, unclaimedFrom_cons_of_some hp, List.map_cons, List.sum_cons]
          split
          next hzero => rw [Fraction.isZero_iff.mp hzero, hrest, zero_add]
          next =>
              rw [List.map_cons, List.sum_cons]
              linarith

/-- What is not claimed is no more than the whole. -/
theorem sum_unclaimedFrom_le (m : Roster) (a : AccountId) (level : Nat) (awards : List Fraction) :
    ((unclaimedFrom m a level awards).map Fraction.value).sum ≤ (awards.map Fraction.value).sum := by
  rw [← sum_feesFrom_add_sum_unclaimedFrom (m := m) (a := a) level awards]
  have hfees := Fraction.sum_value_nonneg ((feesFrom m a level awards).map Fee.ratio)
  rw [List.map_map] at hfees
  exact le_add_of_nonneg_left hfees

/-- What is not claimed is some of the awards. -/
theorem mem_of_mem_unclaimedFrom {awards : List Fraction} (h : share ∈ unclaimedFrom m a level awards) :
    share ∈ awards := by
  obtain ⟨e, he, rfl⟩ := List.mem_map.mp h
  have hmem := List.mem_map_of_mem (f := Prod.fst) (List.mem_filter.mp he).1
  rwa [List.zipIdx_map_fst] at hmem

/-- **What is not claimed is summed up** just if all its partial sums have fractions. -/
theorem exists_sum_unclaimedFrom_iff {p : Params} (m : Roster) (a : AccountId)
    (valid : p.validate = .ok ()) :
    (∃ burn, (unclaimedFrom m a 0 p.awards.toList).foldlM Fraction.add? .zero = some burn) ↔
      ∀ k, Fraction.Representable (((unclaimedFrom m a 0 p.awards.toList).take k).map
        Fraction.value).sum := by
  have hbelow := sum_unclaimedFrom_le m a 0 p.awards.toList
  have hiff := Fraction.exists_foldlM_add?_iff (a := .zero)
    (l := unclaimedFrom m a 0 p.awards.toList) (by
      rw [Fraction.value_zero, zero_add]
      exact hbelow.trans_lt (Params.award_lt_one valid))
  simpa only [Fraction.value_zero, zero_add] using hiff

/-- No level is counted twice. -/
theorem length_feesFrom_add_le (level : Nat) (awards : List Fraction) :
    (feesFrom m a level awards).length + (unclaimedFrom m a level awards).length ≤ awards.length := by
  induction awards generalizing level with
  | nil => rfl
  | cons share rest ih =>
      have hrest := ih (level + 1)
      cases hp : payee? m a level with
      | none =>
          rw [feesFrom_cons_of_none hp, unclaimedFrom_cons_of_none hp, List.length_cons,
            List.length_cons]
          omega
      | some payee =>
          rw [feesFrom_cons_of_some hp, unclaimedFrom_cons_of_some hp, List.length_cons]
          split
          next => omega
          next =>
              rw [List.length_cons]
              omega

/-- Beyond a root nobody claims anything. -/
theorem payee?_of_ancestor?_eq_none (h : ancestor? m (level + 1) a = none) :
    payee? m a level = none := by
  rw [payee?, h]
  rfl

/-- Who claims the award of a level at which there is an ancestor. -/
theorem payee?_of_get? {ancestor : AccountId} {r : Record}
    (h : ancestor? m (level + 1) a = some ancestor) (found : m.get? ancestor = some r) :
    payee? m a level = if level < r.status.linesOpened then some ancestor else none := by
  rw [payee?, h, Option.bind_eq_bind, Option.bind_some, found, Option.bind_eq_bind, Option.bind_some]

end Roster

/-! ### Programs -/

namespace World.Keeps

open Forest Roster

variable {w : World} {L : Ledger} {a : AccountId}

/-- **Handing out awards from a level on** gives what is claimed, and adds up what is not. An award nobody
claims is added before the rest is handed out. -/
theorem run_splitFrom (h : w.Keeps L) (forest : IsForest L.records) (awards : List Fraction)
    (level : Nat) (burn : Fraction) :
    w.run (splitFrom level awards (ancestor? L.records (level + 1) a) burn) =
      (sharesFrom L.records a level awards burn, w) := by
  induction awards generalizing level burn with
  | nil => rfl
  | cons share rest ih =>
      have hburn : payee? L.records a level = none →
          w.run (addBurn burn share >>= fun burn =>
              splitFrom (level + 1) rest (ancestor? L.records (level + 2) a) burn) =
            (sharesFrom L.records a level (share :: rest) burn, w) := by
        intro hp
        rw [sharesFrom_cons_of_none hp, addBurn]
        cases burn.add? share with
        | none => rfl
        | some sum => exact ih (level + 1) sum
      have hup := ancestor?_succ (m := L.records) (level + 1) a
      cases hancestor : ancestor? L.records (level + 1) a with
      | none =>
          rw [hancestor, Option.bind_none] at hup
          rw [hup] at hburn
          exact hburn (payee?_of_ancestor?_eq_none hancestor)
      | some ancestor =>
          obtain ⟨c, -, hc⟩ := Option.bind_eq_some_iff.mp ((ancestor?_succ level a).symm.trans hancestor)
          obtain ⟨r, hr⟩ := Option.ne_none_iff_exists'.mp (forest.closed c ancestor hc)
          rw [hancestor, Option.bind_some, parentOf_of_get? hr] at hup
          have hrecord := h.run_record ancestor
          rw [hr] at hrecord
          have hp := payee?_of_get? hancestor hr
          rw [splitFrom, run_bind_of_ok hrecord]
          split
          next hopen =>
              rw [if_pos hopen] at hp
              have hrest := ih (level + 1) burn
              rw [hup] at hrest
              rw [sharesFrom_cons_of_some hp]
              cases hshares : sharesFrom L.records a (level + 1) rest burn with
              | error e => exact run_bind_of_error (hrest.trans (by rw [hshares])) _
              | ok split => exact run_bind_of_ok (hrest.trans (by rw [hshares])) _
          next hopen =>
              rw [if_neg hopen] at hp
              rw [hup] at hburn
              exact hburn hp

/-- **A split** is what is claimed, and the sum of what is not. -/
theorem run_feeSplit (h : w.Keeps L) (forest : IsForest L.records) (found : L.records.get? a ≠ none) :
    w.run (feeSplit a) = (sharesFrom L.records a 0 (L.params.getD .default).awards.toList .zero, w) := by
  obtain ⟨r, hr⟩ := Option.ne_none_iff_exists'.mp found
  have hrecord := h.run_record a
  rw [hr] at hrecord
  have hsplit := h.run_splitFrom (a := a) forest (L.params.getD .default).awards.toList 0 .zero
  rw [Nat.zero_add, ancestor?_one, parentOf_of_get? hr] at hsplit
  rw [feeSplit, run_bind_of_ok h.run_params, run_bind_of_ok hrecord, hsplit]

end World.Keeps

/-! ### Stores -/

/-- **How a store shares delegations out.** The parameters are acceptable, and the split of an account
gives what is claimed and the sum of what is not, if every partial sum of what is not claimed, level by
level, has a fraction; otherwise it fails in adding it up. It does not fail if the awards have a common
denominator of one word. -/
def Store.SharesOut (store : Store) : Prop :=
  ∃ (m : Roster) (p : Params), store.Holds m ∧
    (World.ofStore store).run Program.params = (.ok p, World.ofStore store) ∧
    p.validate = .ok () ∧
    ∀ a, m.get? a ≠ none →
      let unclaimed := Roster.unclaimedFrom m a 0 p.awards.toList
      let answer := (World.ofStore store).run (Forest.feeSplit a)
      ((∀ k, Fraction.Representable ((unclaimed.take k).map Fraction.value).sum) →
        ∃ burn : Fraction, burn.value = (unclaimed.map Fraction.value).sum ∧
          answer = (.ok ⟨Roster.feesFrom m a 0 p.awards.toList, burn⟩, World.ofStore store)) ∧
      ((¬ ∀ k, Fraction.Representable ((unclaimed.take k).map Fraction.value).sum) →
        answer = (.error (.overflow "burn share"), World.ofStore store)) ∧
      ∀ den : Nat, 0 < den → den < UInt64.size → (∀ f ∈ p.awards.toList, f.den ∣ den) →
        ∃ split, answer = (.ok split, World.ofStore store)

namespace Forest

open Roster

variable {host : Host}

/-- **Splits after every history**: accepted parameters are no promise that they succeed, but they fail
only where a partial sum of what is not claimed has no fraction. -/
theorem sharesOut_after (quiet : host.Quiet) (turns : List Turn) : (after host turns).SharesOut := by
  obtain ⟨L, hkeeps, -, hforest, -, hvalid⟩ := exists_acceptable_after quiet turns
  refine ⟨L.records, L.params.getD .default, holds_of_keeps hkeeps, hkeeps.run_params, hvalid, ?_⟩
  intro a hfound unclaimed answer
  have hanswer : answer = _ := hkeeps.run_feeSplit hforest hfound
  rw [sharesFrom] at hanswer
  have hiff := exists_sum_unclaimedFrom_iff L.records a hvalid
  refine ⟨fun hall => ?_, fun hsome => ?_, fun den hpos hden hdvd => ?_⟩
  · obtain ⟨burn, hburn⟩ := hiff.mpr hall
    have hvalue := Fraction.value_of_foldlM_add? hburn
    rw [Fraction.value_zero, zero_add] at hvalue
    exact ⟨burn, hvalue, by rw [hanswer, hburn]⟩
  · cases hburn : unclaimed.foldlM Fraction.add? .zero with
    | none => rw [hanswer, hburn]
    | some burn => exact absurd (hiff.mp ⟨burn, hburn⟩) hsome
  · have hbelow := (sum_unclaimedFrom_le L.records a 0 _).trans_lt (Params.award_lt_one hvalid)
    obtain ⟨burn, hburn⟩ := hiff.mpr fun k => Fraction.representable_sum_take
      (fun f hf => hdvd f (mem_of_mem_unclaimedFrom hf)) hpos hden hbelow k
    exact ⟨_, by rw [hanswer, hburn]⟩

/-- Splits after the small history, and after the same one with a root of the second tier: a twentieth is
claimed by that root, and is burned with all other awards by the root of the lowest tier. -/
theorem sharesOut_after_small :
    let turns : List Turn := SmallHistory.turns.dropLast ++ [⟨⟨0⟩, .addRoot SmallHistory.root .starter⟩]
    Host.standalone.Quiet ∧ (after Host.standalone SmallHistory.turns).SharesOut ∧
      (after Host.standalone turns).SharesOut ∧
      ((World.ofStore (after Host.standalone SmallHistory.turns)).run (feeSplit SmallHistory.leaf)).1 =
        .ok ⟨[], .percent 15⟩ ∧
      ((World.ofStore (after Host.standalone turns)).run (feeSplit SmallHistory.leaf)).1 =
        .ok ⟨[⟨SmallHistory.root, .percent 5⟩], .percent 10⟩ :=
  ⟨Host.quiet_standalone, sharesOut_after Host.quiet_standalone SmallHistory.turns,
    sharesOut_after Host.quiet_standalone _, by decide +kernel, by decide +kernel⟩

end Forest

/-! ### A crowded table -/

/-- Awards of a half in all, of which the first and the third have no sum in two words: their
denominators follow one another. The second and the fourth each complete one of them to a quarter. -/
def Params.crowded : Params where
  awards := #v[.ofNonzero 1 10000000000 (by decide), .ofNonzero 2499999999 10000000000 (by decide),
    .ofNonzero 1 10000000001 (by decide), .ofNonzero 9999999997 40000000004 (by decide), .zero, .zero,
    .zero, .zero, .zero, .zero, .zero, .zero, .zero, .zero]
  gracePeriod := Params.default.gracePeriod

namespace CrowdedHistory

/-- An account between the root and the referral. -/
def middle : AccountId := ⟨"middle", by decide, by decide⟩

/-- Below a root of the second tier, whose award is the second one, come an account of the first tier,
which claims nothing, and a referral; latest first. -/
def turns : List Turn :=
  [⟨⟨0⟩, .append middle SmallHistory.leaf⟩, ⟨⟨0⟩, .append SmallHistory.root middle⟩,
    ⟨⟨0⟩, .addRoot SmallHistory.root .starter⟩, ⟨⟨0⟩, .setParams .crowded⟩]

end CrowdedHistory

/-- **Accepted parameters under which a split fails**: the referral is there, nobody claims any award but
the second, and the others cannot be summed up in their order, although they can in another one. -/
theorem Forest.feeSplit_crowded :
    Params.crowded.validate = .ok () ∧
    ((World.ofStore (after Host.standalone CrowdedHistory.turns)).run
      Program.params).1 = .ok .crowded ∧
    ((World.ofStore (after Host.standalone CrowdedHistory.turns)).run
      (Program.hasRecord SmallHistory.leaf)).1 = .ok true ∧
    ((World.ofStore (after Host.standalone CrowdedHistory.turns)).run
      (feeSplit SmallHistory.leaf)).1 = .error (.overflow "burn share") ∧
    (Params.crowded.awards.toList.drop 2 ++ Params.crowded.awards.toList.take 1).foldlM
      Fraction.add? .zero = some (.ofNonzero 2500000001 10000000000 (by decide)) :=
  ⟨by decide +kernel, by decide +kernel, by decide +kernel, by decide +kernel, by decide +kernel⟩

end ReferralForest

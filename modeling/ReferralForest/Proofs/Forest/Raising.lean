import ReferralForest.Proofs.Forest.Sharing

/-!
# Raising a Tier

What an ancestor gets of a delegation depends on its own tier alone: the award of its level, if its tier
opens the line. So a higher tier moves nothing but that award, from what is burned to the ancestor or the
other way, and all others get what they got.

The earned tiers open more lines the higher they stand. The unset tier, which stands below all of them,
opens as many as the highest; an ancestor that leaves it for an earned tier loses its award unless that
tier opens the line too.

A split after a raise is the sum of fewer awards than the one before. It may nevertheless fail where that
one succeeded, as the sums of part of a table need have no fraction.

## Main definitions

* `FeeSplit.shareOf` — what an account gets in a split.
* `Params.lineAward` — what an ancestor gets by its line and its tier.
* `Roster.awarded` — what the levels with a given payee come to.
* `Store.Raise` — what raising the tier of an ancestor does to a split.

## Main statements

* `Status.linesOpened_le_of_lt` — higher earned tiers open more lines.
* `Roster.sharesFrom_zero_eq_ok` — shares and burn are what the levels of their payees come to.
* `Roster.awarded_eq_lineAward` — an ancestor gets the award of its line, if its tier opens it.
* `Forest.rewardsTiers_after` — raises after every history.
* `Forest.raise_loses` — a raise out of the unset tier that costs an ancestor its share, and a raise after
  which the split fails.
-/

namespace ReferralForest

namespace Status

/-- **Higher earned tiers open more lines.** -/
theorem linesOpened_le_of_lt {s t : Status} (earned : s ≠ .unspecified) (h : s < t) :
    s.linesOpened ≤ t.linesOpened := by
  revert earned h
  cases s <;> cases t <;> decide

/-- No tier opens lines beyond the award table. -/
theorem linesOpened_le (s : Status) : s.linesOpened ≤ maxDepth := by
  cases s <;> decide

/-- **A line that is open stays open** when the tier rises, unless it is the unset tier that is left. -/
theorem opens_of_lt {s t : Status} {line : Nat} (h : s < t)
    (unset : s = .unspecified → line < maxDepth → line < t.linesOpened) (opened : line < s.linesOpened) :
    line < t.linesOpened := by
  by_cases hs : s = .unspecified
  · exact unset hs (opened.trans_le s.linesOpened_le)
  · exact opened.trans_le (linesOpened_le_of_lt hs h)

end Status

/-- What an ancestor of a tier gets by its line: the award of the line, if the tier opens it. -/
def Params.lineAward (p : Params) (line : Nat) (s : Status) : ℚ :=
  if line < s.linesOpened then (p.awards.toList.getD line .zero).value else 0

/-- Tiers that open the lines that another one opens get no less. -/
theorem Params.lineAward_mono (p : Params) {line : Nat} {s t : Status}
    (opens : line < s.linesOpened → line < t.linesOpened) : p.lineAward line s ≤ p.lineAward line t := by
  rw [lineAward, lineAward]
  split
  next hopen => rw [if_pos (opens hopen)]
  next => split <;> simp [Fraction.value_nonneg]

/-- What an account gets in a split. -/
def FeeSplit.shareOf (split : FeeSplit) (b : AccountId) : ℚ :=
  ((split.fees.filter fun fee => fee.beneficiary = b).map fun fee => fee.ratio.value).sum

namespace Roster

variable {m m' : Roster} {a b : AccountId} {r : Record} {s : Status} {level : Nat}
  {awards : List Fraction}

/-! ### Levels by payee -/

/-- **What the levels with a given payee come to**, from a level on; without a payee it is what nobody
claims. -/
def awarded (m : Roster) (a : AccountId) (payee : Option AccountId) (level : Nat)
    (awards : List Fraction) : ℚ :=
  ((awards.zipIdx level).map fun e => if payee? m a e.2 = payee then e.1.value else 0).sum

/-- What an account is awarded from a level on is the award of that level, if it claims it, and what it is
awarded from the next one on. -/
theorem awarded_cons (payee : Option AccountId) (share : Fraction) :
    awarded m a payee level (share :: awards) =
      (if payee? m a level = payee then share.value else 0) + awarded m a payee (level + 1) awards := by
  rw [awarded, List.zipIdx_cons, List.map_cons, List.sum_cons, awarded]

/-- What nobody claims. -/
theorem sum_unclaimedFrom_eq (m : Roster) (a : AccountId) (level : Nat) (awards : List Fraction) :
    ((unclaimedFrom m a level awards).map Fraction.value).sum = awarded m a none level awards := by
  induction awards generalizing level with
  | nil => rfl
  | cons share rest ih =>
      rw [awarded_cons]
      cases hp : payee? m a level with
      | none => rw [unclaimedFrom_cons_of_none hp, List.map_cons, List.sum_cons, ih, if_pos rfl]
      | some c => rw [unclaimedFrom_cons_of_some hp, ih, if_neg (by simp), zero_add]

/-- What an account claims. -/
theorem shareOf_feesFrom (m : Roster) (a b : AccountId) (burn : Fraction) (level : Nat)
    (awards : List Fraction) :
    (FeeSplit.mk (feesFrom m a level awards) burn).shareOf b = awarded m a (some b) level awards := by
  induction awards generalizing level with
  | nil => rfl
  | cons share rest ih =>
      have hrest := ih (level + 1)
      rw [FeeSplit.shareOf] at hrest ⊢
      rw [awarded_cons, ← hrest]
      cases hp : payee? m a level with
      | none => rw [feesFrom_cons_of_none hp, if_neg (by simp), zero_add]
      | some c =>
          rw [feesFrom_cons_of_some hp]
          by_cases hzero : share.isZero
          · rw [if_pos hzero, Fraction.isZero_iff.mp hzero, ite_self, zero_add]
          · rw [if_neg hzero]
            by_cases hc : c = b <;> simp [hc]

/-- **Shares and burn** are what the levels of their payees come to. -/
theorem sharesFrom_zero_eq_ok {split : FeeSplit}
    (h : sharesFrom m a level awards .zero = .ok split) :
    (∀ b, split.shareOf b = awarded m a (some b) level awards) ∧
      split.burn.value = awarded m a none level awards := by
  rw [sharesFrom] at h
  split at h
  next total htotal =>
      obtain rfl := Except.ok.inj h
      refine ⟨fun b => shareOf_feesFrom m a b total level awards, ?_⟩
      rw [Fraction.value_of_foldlM_add? htotal, Fraction.value_zero, zero_add, sum_unclaimedFrom_eq]
  next => contradiction

/-- A split fails only in adding up what is burned. -/
theorem eq_overflow_of_sharesFrom {burn : Fraction} {e : Error}
    (h : sharesFrom m a level awards burn = .error e) : e = .overflow "burn share" := by
  rw [sharesFrom] at h
  split at h
  next => contradiction
  next => exact (Except.error.inj h).symm

/-- There is a split just if the partial sums of what nobody claims have fractions. -/
theorem exists_sharesFrom_iff {p : Params} (valid : p.validate = .ok ()) :
    (∃ split, sharesFrom m a 0 p.awards.toList .zero = .ok split) ↔
      ∀ k, Fraction.Representable (((unclaimedFrom m a 0 p.awards.toList).take k).map
        Fraction.value).sum := by
  rw [← exists_sum_unclaimedFrom_iff m a valid, sharesFrom]
  cases (unclaimedFrom m a 0 p.awards.toList).foldlM Fraction.add? .zero <;> simp

/-- Awards with a common denominator of one word can always be split. -/
theorem exists_sharesFrom_of_dvd {p : Params} (valid : p.validate = .ok ()) {den : Nat} (pos : 0 < den)
    (inRange : den < UInt64.size) (divides : ∀ f ∈ p.awards.toList, f.den ∣ den) :
    ∃ split, sharesFrom m a 0 p.awards.toList .zero = .ok split :=
  (exists_sharesFrom_iff valid).mpr <| Fraction.representable_sum_take
    (fun f hf => divides f (mem_of_mem_unclaimedFrom hf)) pos inRange
    ((sum_unclaimedFrom_le m a 0 _).trans_lt (Params.award_lt_one valid))

/-- The same levels come to the same. -/
theorem awarded_congr {payee : Option AccountId}
    (h : ∀ i, payee? m' a i = payee ↔ payee? m a i = payee) :
    awarded m' a payee level awards = awarded m a payee level awards := by
  simp only [awarded, h]

/-- What an account gets and what nobody gets, together. -/
theorem awarded_add_awarded_none (b : AccountId) :
    awarded m a (some b) level awards + awarded m a none level awards =
      ((awards.zipIdx level).map fun e =>
        if payee? m a e.2 = some b ∨ payee? m a e.2 = none then e.1.value else 0).sum := by
  rw [awarded, awarded, ← List.sum_map_add]
  congr 1
  refine List.map_congr_left fun e _ => ?_
  cases payee? m a e.2 with
  | none => simp
  | some c => simp

/-! ### The line of an ancestor -/

/-- The entry at a place of a table, as a sum over all its places. -/
theorem sum_zipIdx_eq_getD (awards : List Fraction) (level k : Nat) :
    ((awards.zipIdx level).map fun e => if e.2 = level + k then e.1.value else 0).sum =
      (awards.getD k .zero).value := by
  induction awards generalizing level k with
  | nil => simp
  | cons share rest ih =>
      rw [List.zipIdx_cons, List.map_cons, List.sum_cons]
      cases k with
      | zero =>
          have hrest : ∀ e ∈ rest.zipIdx (level + 1),
              (if e.2 = level + 0 then e.1.value else 0) = (0 : ℚ) := by
            intro e he
            have hle := List.le_snd_of_mem_zipIdx he
            exact if_neg (by omega)
          rw [List.map_congr_left hrest]
          simp
      | succ k =>
          have hrest := ih (level + 1) k
          rw [show level + 1 + k = level + (k + 1) by omega] at hrest
          rw [if_neg (by omega), zero_add, hrest, List.getD_cons_succ]

/-- **An ancestor claims the award of its own level**, if its tier opens the line, and no other. -/
theorem payee?_eq_some_iff (forest : IsForest m) {g i : Nat} (above : ancestor? m (g + 1) a = some b)
    (found : m.get? b = some r) : payee? m a i = some b ↔ i = g ∧ g < r.status.linesOpened := by
  constructor
  · intro hp
    obtain ⟨c, hc, hclaims⟩ := Option.bind_eq_some_iff.mp hp
    obtain ⟨q, hq, hopen⟩ := Option.bind_eq_some_iff.mp hclaims
    obtain ⟨hlt, hcb⟩ := Option.ite_none_right_eq_some.mp hopen
    obtain rfl := Option.some.inj hcb
    obtain rfl := Option.some.inj (hq.symm.trans found)
    obtain rfl : i = g := Nat.succ.inj (forest.level_unique hc above)
    exact ⟨rfl, hlt⟩
  · rintro ⟨rfl, hopen⟩
    rw [payee?_of_get? above found, if_pos hopen]

/-- **What an ancestor gets** is the award of its line, or nothing. -/
theorem awarded_eq_lineAward (forest : IsForest m) {g : Nat} (above : ancestor? m (g + 1) a = some b)
    (found : m.get? b = some r) (p : Params) :
    awarded m a (some b) 0 p.awards.toList = p.lineAward g r.status := by
  have hclaims : ∀ i, payee? m a i = some b ↔ i = g ∧ g < r.status.linesOpened :=
    fun i => payee?_eq_some_iff forest above found
  rw [awarded, Params.lineAward]
  simp only [hclaims]
  split
  next hopen =>
      have hsum := sum_zipIdx_eq_getD p.awards.toList 0 g
      simpa only [hopen, and_true, Nat.zero_add] using hsum
  next hclosed => simp [hclosed]

/-! ### A raised tier -/

section Raise

variable (found : m.get? b = some r)
include found

/-- **Who claims the awards once an account has another tier**: only its own level may have changed
hands. -/
theorem payee?_insert_status (i : Nat) :
    payee? (m.insert b { r with status := s }) a i =
      if ancestor? m (i + 1) a = some b then (if i < s.linesOpened then some b else none)
      else payee? m a i := by
  have hline : ancestor? (m.insert b { r with status := s }) = ancestor? m := ancestor?_insert found rfl
  rw [payee?, hline]
  split
  next hb => simp [hb, SortedMap.get?_insert_self]
  next hb =>
      rw [payee?]
      cases hc : ancestor? m (i + 1) a with
      | none => rfl
      | some c =>
          have hne : c ≠ b := fun heq => hb (hc.trans (congrArg some heq))
          simp [SortedMap.get?_insert_of_ne _ _ hne]

/-- What another account claims stays. -/
theorem awarded_insert_status_of_ne {c : AccountId} (h : c ≠ b) :
    awarded (m.insert b { r with status := s }) a (some c) level awards =
      awarded m a (some c) level awards := by
  refine awarded_congr fun i => ?_
  rw [payee?_insert_status found]
  split
  next above =>
      rw [payee?_of_get? above found]
      split <;> split <;> simp [h.symm]
  next => exact Iff.rfl

/-- A level that is the account's or nobody's stays so. -/
theorem payee?_insert_status_eq_or (i : Nat) :
    (payee? (m.insert b { r with status := s }) a i = some b ∨
        payee? (m.insert b { r with status := s }) a i = none) ↔
      (payee? m a i = some b ∨ payee? m a i = none) := by
  rw [payee?_insert_status found]
  split
  next above =>
      rw [payee?_of_get? above found]
      split <;> split <;> simp
  next => exact Iff.rfl

/-- What the account gets and what nobody gets come to the same as before. -/
theorem awarded_insert_status_add :
    awarded (m.insert b { r with status := s }) a (some b) level awards +
        awarded (m.insert b { r with status := s }) a none level awards =
      awarded m a (some b) level awards + awarded m a none level awards := by
  rw [awarded_add_awarded_none, awarded_add_awarded_none]
  simp only [payee?_insert_status_eq_or found]

end Raise

end Roster

/-! ### Stores -/

/-- The split of a delegation that a store answers with. -/
def Store.Splits (store : Store) (a : AccountId) (split : FeeSplit) : Prop :=
  (World.ofStore store).run (Forest.feeSplit a) = (.ok split, World.ofStore store)

/-- **What raising the tier of an ancestor does to a split**: `store` and `raised` are the stores before
and after, and the account `b`, `g` levels above the parent of `a`, has been raised from `s` to `s'`. -/
structure Store.Raise (store raised : Store) (m' : Roster) (p : Params) (a b : AccountId) (g : Nat)
    (s s' : Status) : Prop where
  /-- The ancestor gets no less and no more is burned, unless it leaves the unset tier for one that does
  not open its line. -/
  rewards : (s = .unspecified → g < maxDepth → g < s'.linesOpened) →
    ∀ split split', store.Splits a split → raised.Splits a split' →
      split.shareOf b ≤ split'.shareOf b ∧ split'.burn.value ≤ split.burn.value
  /-- What it gets and what is burned come to the same as before, and all others get what they got. -/
  moves : ∀ split split', store.Splits a split → raised.Splits a split' →
    split'.shareOf b + split'.burn.value = split.shareOf b + split.burn.value ∧
      ∀ c, c ≠ b → split'.shareOf c = split.shareOf c
  /-- It gets the award of its line, if its tier opens the line, and nothing otherwise. -/
  gets : (∀ split, store.Splits a split → split.shareOf b = p.lineAward g s) ∧
    ∀ split', raised.Splits a split' → split'.shareOf b = p.lineAward g s'
  /-- There still is a split just if the partial sums of what nobody claims have fractions. -/
  succeeds : (∃ split', raised.Splits a split') ↔
    ∀ k, Fraction.Representable (((Roster.unclaimedFrom m' a 0 p.awards.toList).take k).map
      Fraction.value).sum
  /-- Otherwise it fails in adding them up. -/
  fails : ∀ e, ((World.ofStore raised).run (Forest.feeSplit a)).1 = .error e →
    e = .overflow "burn share"
  /-- There are splits before and after if the awards have a common denominator of one word. -/
  common : ∀ den : Nat, 0 < den → den < UInt64.size → (∀ f ∈ p.awards.toList, f.den ∣ den) →
    (∃ split, store.Splits a split) ∧ ∃ split', raised.Splits a split'

/-- **How a store rewards tiers**: writing a higher tier into the record of an ancestor succeeds, leaves
all other records and the parameters, and does to the split of an account what raises do. -/
def Store.RewardsTiers (store : Store) : Prop :=
  ∃ (m : Roster) (p : Params), store.Holds m ∧
    (World.ofStore store).run Program.params = (.ok p, World.ofStore store) ∧
    p.validate = .ok () ∧
    ∀ a b g r s', m.get? a ≠ none → Roster.ancestor? m (g + 1) a = some b → m.get? b = some r →
      r.status < s' →
      ∃ raised : Store,
        (World.ofStore store).run (Program.setRecord b { r with status := s' }) =
          (.ok (), World.ofStore raised) ∧
        raised.Holds (m.insert b { r with status := s' }) ∧
        (World.ofStore raised).run Program.params = (.ok p, World.ofStore raised) ∧
        store.Raise raised (m.insert b { r with status := s' }) p a b g r.status s'

namespace World.Keeps

open Roster

variable {store raised : Store} {L : Ledger} {a b : AccountId} {r : Record} {s' : Status} {g : Nat}

/-- The answer of a store that keeps a forest. -/
theorem splits_iff (h : (World.ofStore store).Keeps L) (forest : IsForest L.records)
    (found : L.records.get? a ≠ none) (split : FeeSplit) :
    store.Splits a split ↔
      sharesFrom L.records a 0 (L.params.getD .default).awards.toList .zero = .ok split := by
  rw [Store.Splits, h.run_feeSplit forest found, Prod.mk.injEq, and_iff_left rfl]

/-- An ancestor gets the award of its line, if its tier opens the line, and nothing otherwise. -/
theorem shareOf_eq_lineAward (h : (World.ofStore store).Keeps L) (forest : IsForest L.records)
    (found : L.records.get? a ≠ none) (above : ancestor? L.records (g + 1) a = some b)
    (hr : L.records.get? b = some r) {split : FeeSplit} (splits : store.Splits a split) :
    split.shareOf b = (L.params.getD .default).lineAward g r.status := by
  have hshares := (sharesFrom_zero_eq_ok ((h.splits_iff forest found split).mp splits)).1 b
  rw [hshares, awarded_eq_lineAward forest above hr]

section Raise

variable (h : (World.ofStore store).Keeps L)
  (h' : (World.ofStore raised).Keeps (L.put b { r with status := s' })) (forest : IsForest L.records)
  (found : L.records.get? a ≠ none) (hr : L.records.get? b = some r)

include h h' forest found hr

/-- **Raising the tier of an account** moves awards between what it gets and what is burned, and leaves what
all others get. -/
theorem moves_of_raise {split split' : FeeSplit} (splits : store.Splits a split)
    (splits' : raised.Splits a split') :
    split'.shareOf b + split'.burn.value = split.shareOf b + split.burn.value ∧
      ∀ c, c ≠ b → split'.shareOf c = split.shareOf c := by
  obtain ⟨hgets, hburn⟩ := sharesFrom_zero_eq_ok ((h.splits_iff forest found split).mp splits)
  obtain ⟨hgets', hburn'⟩ := sharesFrom_zero_eq_ok
    ((h'.splits_iff (forest.put hr rfl) (SortedMap.get?_insert_ne_none found) split').mp splits')
  refine ⟨?_, fun c hc => ?_⟩
  · rw [hgets', hburn', hgets, hburn]
    exact awarded_insert_status_add hr
  · rw [hgets', hgets]
    exact awarded_insert_status_of_ne hr hc

omit h in
/-- **The award of its line** is what an ancestor gets after the raise, if its new tier opens the line. -/
theorem shareOf_of_raise (above : ancestor? L.records (g + 1) a = some b) {split' : FeeSplit}
    (splits' : raised.Splits a split') :
    split'.shareOf b = (L.params.getD .default).lineAward g s' := by
  have hline : ancestor? (L.put b { r with status := s' }).records = ancestor? L.records :=
    ancestor?_insert hr rfl
  have above' : ancestor? (L.put b { r with status := s' }).records (g + 1) a = some b := by
    rw [hline, above]
  exact h'.shareOf_eq_lineAward (forest.put hr rfl) (SortedMap.get?_insert_ne_none found) above'
    (L.records.get?_insert_self b { r with status := s' }) splits'

/-- **A raise rewards an ancestor** whose line stays open if it was open: it gets no less, and as the sum
stays, no more is burned. -/
theorem rewards_of_raise (above : ancestor? L.records (g + 1) a = some b)
    (opens : g < r.status.linesOpened → g < s'.linesOpened) {split split' : FeeSplit}
    (splits : store.Splits a split) (splits' : raised.Splits a split') :
    split.shareOf b ≤ split'.shareOf b ∧ split'.burn.value ≤ split.burn.value := by
  have hmore : split.shareOf b ≤ split'.shareOf b := by
    rw [h.shareOf_eq_lineAward forest found above hr splits,
      shareOf_of_raise h' forest found hr above splits']
    exact Params.lineAward_mono _ opens
  have hsame := (moves_of_raise h h' forest found hr splits splits').1
  exact ⟨hmore, by linarith⟩

/-- **Raising the tier of an ancestor** in a store that keeps a forest. The raised tier leaves the forest as
it is. -/
theorem raise (valid : (L.params.getD .default).validate = .ok ())
    (above : ancestor? L.records (g + 1) a = some b) (raises : r.status < s') :
    store.Raise raised (L.records.insert b { r with status := s' }) (L.params.getD .default) a b g
      r.status s' where
  rewards opens _ _ splits splits' :=
    rewards_of_raise h h' forest found hr above (Status.opens_of_lt raises opens) splits splits'
  moves _ _ splits splits' := moves_of_raise h h' forest found hr splits splits'
  gets := ⟨fun _ splits => h.shareOf_eq_lineAward forest found above hr splits,
    fun _ splits' => shareOf_of_raise h' forest found hr above splits'⟩
  succeeds := by
    rw [exists_congr (h'.splits_iff (forest.put hr rfl) (SortedMap.get?_insert_ne_none found))]
    exact exists_sharesFrom_iff valid
  fails e he := by
    rw [h'.run_feeSplit (forest.put hr rfl) (SortedMap.get?_insert_ne_none found)] at he
    exact eq_overflow_of_sharesFrom he
  common den pos inRange divides := by
    rw [exists_congr (h.splits_iff forest found),
      exists_congr (h'.splits_iff (forest.put hr rfl) (SortedMap.get?_insert_ne_none found))]
    exact ⟨exists_sharesFrom_of_dvd valid pos inRange divides,
      exists_sharesFrom_of_dvd valid pos inRange divides⟩

end Raise

end World.Keeps

namespace Forest

variable {host : Host}

/-- **Raises after every history**: an ancestor that is raised from an earned tier gets no less of a
delegation, and no more of it is burned. -/
theorem rewardsTiers_after (quiet : host.Quiet) (turns : List Turn) :
    (after host turns).RewardsTiers := by
  obtain ⟨L, hkeeps, -, hforest, -, hvalid⟩ := exists_acceptable_after quiet turns
  refine ⟨L.records, L.params.getD .default, holds_of_keeps hkeeps, hkeeps.run_params, hvalid, ?_⟩
  intro a b g r s' hfound habove hr hraises
  obtain ⟨w, hset, hkeeps', hbatch, hlog⟩ :=
    hkeeps.run_setRecord (a := b) (r := { r with status := s' }) (hkeeps.stored.full b r hr)
  obtain ⟨raised, rfl⟩ : ∃ raised, w = World.ofStore raised := by
    obtain ⟨store, batch, log⟩ := w
    obtain ⟨rfl, rfl⟩ : batch = .empty ∧ log = [] := ⟨hbatch, hlog⟩
    exact ⟨store, rfl⟩
  exact ⟨raised, hset, holds_of_keeps hkeeps', hkeeps'.run_params,
    hkeeps.raise hkeeps' hforest hfound hr hvalid habove hraises⟩

/-- Raises after the small history: raised to the second tier, the root gets a twentieth of what its
referral delegates, which was burned before. -/
theorem rewardsTiers_after_small :
    let world := World.ofStore (after Host.standalone SmallHistory.turns)
    Host.standalone.Quiet ∧ (after Host.standalone SmallHistory.turns).RewardsTiers ∧
      (world.run (feeSplit SmallHistory.leaf)).1 = .ok ⟨[], .percent 15⟩ ∧
      (world.run (do
        let r ← Program.record SmallHistory.root
        Program.setRecord SmallHistory.root { r with status := .starter }
        feeSplit SmallHistory.leaf)).1 = .ok ⟨[⟨SmallHistory.root, .percent 5⟩], .percent 10⟩ :=
  ⟨Host.quiet_standalone, rewardsTiers_after Host.quiet_standalone SmallHistory.turns,
    by decide +kernel, by decide +kernel⟩

end Forest

/-! ### Raises that cost an ancestor its share -/

namespace RaisedHistory

open SmallHistory

/-- A document with a root of the unset tier and a referral below it. -/
def unset : Genesis where
  params := .default
  roots := some [⟨"root", .unspecified⟩]
  groups := [⟨"root", [⟨"leaf", .new⟩]⟩]
  downgrades := []

/-- The crowded table, and a referral two levels below a root that claims nothing yet; latest first. -/
def crowded : List Turn :=
  [⟨⟨0⟩, .append CrowdedHistory.middle leaf⟩, ⟨⟨0⟩, .append root CrowdedHistory.middle⟩,
    ⟨⟨0⟩, .addRoot root .new⟩, ⟨⟨0⟩, .setParams .crowded⟩]

/-- The store after a history in which a tier has been written into the record of the root. -/
def raised (turns : List Turn) (s : Status) : Store :=
  ((World.ofStore (Forest.after Host.standalone turns)).run do
    let r ← Program.record root
    Program.setRecord root { r with status := s }).2.store

/-- How the delegation of the referral is shared out. -/
def answer (store : Store) : Except Error FeeSplit :=
  ((World.ofStore store).run (Forest.feeSplit leaf)).1

end RaisedHistory

open RaisedHistory in
/-- **Raises that cost an ancestor its share.** Raised from the unset tier to the lowest earned one, a
root loses its award, which is burned then. Raised from the lowest tier to the second one under the
crowded table, a root claims an award without which the others cannot be summed up in their order. -/
theorem Forest.raise_loses :
    (Status.unspecified < .new ∧
      answer (after Host.standalone [⟨⟨0⟩, .importGenesis unset⟩]) =
        .ok ⟨[⟨SmallHistory.root, .percent 5⟩], .percent 10⟩ ∧
      answer (raised [⟨⟨0⟩, .importGenesis unset⟩] .new) = .ok ⟨[], .percent 15⟩) ∧
    (Status.new < .starter ∧
      answer (after Host.standalone crowded) = .ok ⟨[], .ofNonzero 1 2 (by decide)⟩ ∧
      answer (raised crowded .starter) = .error (.overflow "burn share")) :=
  ⟨⟨by decide, by decide +kernel, by decide +kernel⟩,
    ⟨by decide, by decide +kernel, by decide +kernel⟩⟩

end ReferralForest

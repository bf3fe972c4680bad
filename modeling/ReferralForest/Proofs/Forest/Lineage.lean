import ReferralForest.Proofs.Forest.Moves

/-!
# Lineage

Who is above whom. Going up from an account over one referrer after another reaches its ancestors, and
since an account enters below one that is there already, and never moves, going up ends at a root. So
no account is above itself, and an account lies at one generation below another at most.

## Main definitions

* `Roster.parentOf`, `Roster.ancestor?` — the referrer of an account, and its ancestor at a level.
* `Roster.ReachesFrom` — an account is among the ancestors of another from a level on.
* `Roster.IsForest` — referrers are there, and going up ends.

## Main statements

* `IsForest.level_unique` — no two generations below an account have an account in common.
* `Move.Takes.records_invariant` — what holds of the records after every move that changes neither
  stake nor activity.
* `Move.Takes.isForest` — a move keeps the forest a forest.
-/

namespace ReferralForest

/-- A walk leaves every record its referrer. -/
theorem Ledger.Walk.map_referrer_eq {P : Edit} {L L' : Ledger} (h : Ledger.Walk P L L')
    (a : AccountId) :
    (L'.records.get? a).map Record.referrer = (L.records.get? a).map Record.referrer :=
  h.map_get?_eq (fun _ _ _ edits _ => edits.referrer) (fun _ _ _ => rfl) a

namespace Roster

/-- The referrer of an account. -/
def parentOf (m : Roster) (a : AccountId) : Option AccountId := (m.get? a).bind Record.referrer

/-- The ancestor of an account so many levels up; the account itself is 0 levels up. -/
def ancestor? (m : Roster) : Nat → AccountId → Option AccountId
  | 0, a => some a
  | g + 1, a => (parentOf m a).bind (ancestor? m g)

/-- Going up at least so many levels from one account reaches another. -/
def ReachesFrom (m : Roster) (level : Nat) (x a : AccountId) : Prop :=
  ∃ j, level ≤ j ∧ ancestor? m j x = some a

/-- **The referrers make a forest**: each is in it, and going up from any account ends. -/
structure IsForest (m : Roster) : Prop where
  /-- A referrer has a record. -/
  closed : ∀ a p, parentOf m a = some p → m.get? p ≠ none
  /-- Going up ends. -/
  rooted : ∀ a, ∃ g, ancestor? m g a = none

variable {m : Roster} {a b c x : AccountId} {r r' : Record}

/-! ### Going up -/

/-- The parent of an account is the referrer in its record. -/
theorem parentOf_of_get? (h : m.get? a = some r) : parentOf m a = r.referrer := by
  rw [parentOf, h, Option.bind_some]

/-- No levels up stands the account itself. -/
@[simp] theorem ancestor?_zero : ancestor? m 0 a = some a := rfl

/-- One level up stands the parent. -/
@[simp] theorem ancestor?_one : ancestor? m 1 a = parentOf m a := by
  rw [ancestor?]
  cases parentOf m a <;> rfl

/-- Going up `i` levels and then `j` levels. -/
theorem ancestor?_add (i j : Nat) (a : AccountId) :
    ancestor? m (i + j) a = (ancestor? m i a).bind (ancestor? m j) := by
  induction i generalizing a with
  | zero => rw [Nat.zero_add, ancestor?_zero, Option.bind_some]
  | succ i ih =>
      rw [Nat.add_right_comm, ancestor?, ancestor?, Option.bind_assoc]
      exact Option.bind_congr fun p _ => ih p

/-- The next level up is the referrer of the one before. -/
theorem ancestor?_succ (g : Nat) (a : AccountId) :
    ancestor? m (g + 1) a = (ancestor? m g a).bind (parentOf m) := by
  rw [ancestor?_add]
  exact Option.bind_congr fun p _ => ancestor?_one

/-- Beyond a root there is nobody. -/
theorem ancestor?_eq_none_of_le {i j : Nat} (hij : i ≤ j) (h : ancestor? m i a = none) :
    ancestor? m j a = none := by
  obtain ⟨k, rfl⟩ := Nat.exists_eq_add_of_le hij
  rw [ancestor?_add, h, Option.bind_none]

/-- Above an account without a record there is nobody. -/
theorem ancestor?_eq_none_of_get? {g : Nat} (h : ancestor? m g x = some a) (hnone : m.get? a = none)
    {j : Nat} (hj : g < j) : ancestor? m j x = none := by
  refine ancestor?_eq_none_of_le hj ?_
  rw [ancestor?_succ, h, Option.bind_some, parentOf, hnone, Option.bind_none]

/-- From a level on where there is nobody, nobody is reached. -/
theorem not_reachesFrom {level : Nat} (h : ancestor? m level x = none) :
    ¬ ReachesFrom m level x a := by
  rintro ⟨j, hj, ha⟩
  rw [ancestor?_eq_none_of_le hj h] at ha
  contradiction

/-- Only the referrers decide who is above whom. -/
theorem ancestor?_congr {m' : Roster} (h : parentOf m' = parentOf m) : ancestor? m' = ancestor? m := by
  funext g a
  induction g generalizing a with
  | zero => rfl
  | succ g ih => rw [ancestor?, ancestor?, h, funext ih]

/-- A record written over one with the same referrer moves nobody. -/
theorem parentOf_insert (found : m.get? a = some r) (same : r'.referrer = r.referrer) :
    parentOf (m.insert a r') = parentOf m := by
  classical
  funext b
  rw [parentOf, SortedMap.get?_insert]
  split
  next hb => rw [hb, parentOf_of_get? found, Option.bind_some, same]
  next => rfl

/-- A record written with the same referrer moves nobody. -/
theorem ancestor?_insert (found : m.get? a = some r) (same : r'.referrer = r.referrer) :
    ancestor? (m.insert a r') = ancestor? m :=
  ancestor?_congr (parentOf_insert found same)

/-- A record written with the same referrer changes nobody's way up. -/
theorem reachesFrom_insert (found : m.get? a = some r) (same : r'.referrer = r.referrer) :
    ReachesFrom (m.insert a r') = ReachesFrom m := by
  funext level x b
  rw [ReachesFrom, ancestor?_insert found same, ReachesFrom]

/-- A new account has the referrer it enters with. -/
theorem parentOf_insert_self : parentOf (m.insert a r) a = r.referrer :=
  parentOf_of_get? (SortedMap.get?_insert_self m a r)

/-- Writing a record moves no other account. -/
theorem parentOf_insert_of_ne (h : b ≠ a) : parentOf (m.insert a r) b = parentOf m b := by
  rw [parentOf, SortedMap.get?_insert_of_ne _ _ h, parentOf]

/-- A walk moves nobody. -/
theorem parentOf_walk {P : Edit} {L L' : Ledger} (h : Ledger.Walk P L L') :
    parentOf L'.records = parentOf L.records := by
  funext b
  have hbind := congrArg (Option.bind · id) (h.map_referrer_eq b)
  simpa only [parentOf, Option.bind_map, Function.id_comp] using hbind

namespace IsForest

/-! ### Forests -/

/-- **No account is above itself.** -/
theorem ancestor?_ne_self (h : IsForest m) (g : Nat) : ancestor? m (g + 1) a ≠ some a := by
  intro hloop
  have hround : ∀ k, ancestor? m (k * (g + 1)) a = some a := by
    intro k
    induction k with
    | zero => rw [Nat.zero_mul, ancestor?_zero]
    | succ k ih => rw [Nat.succ_mul, ancestor?_add, ih, Option.bind_some, hloop]
  obtain ⟨n, hn⟩ := h.rooted a
  have hnone := ancestor?_eq_none_of_le (Nat.le_mul_of_pos_right n g.succ_pos) hn
  rw [hround n] at hnone
  contradiction

/-- No account is reached on the way up from itself. -/
theorem not_reachesFrom_self (h : IsForest m) (level : Nat) : ¬ ReachesFrom m (level + 1) a a := by
  rintro ⟨j, hj, hloop⟩
  obtain ⟨i, rfl⟩ := Nat.exists_eq_add_of_le hj
  rw [Nat.add_right_comm] at hloop
  exact h.ancestor?_ne_self (level + i) hloop

/-- No account is its own referrer. -/
theorem referrer_ne_self (h : IsForest m) (found : m.get? a = some r) : r.referrer ≠ some a := by
  intro hloop
  refine h.ancestor?_ne_self 0 (a := a) ?_
  rw [Nat.zero_add, ancestor?_one, parentOf_of_get? found, hloop]

/-- **An account lies at one generation below another at most.** -/
theorem level_unique (h : IsForest m) {i j : Nat} (hi : ancestor? m i x = some a)
    (hj : ancestor? m j x = some a) : i = j := by
  wlog hij : i ≤ j generalizing i j
  · exact (this hj hi (Nat.le_of_not_le hij)).symm
  obtain ⟨k, rfl⟩ := Nat.exists_eq_add_of_le hij
  rw [ancestor?_add, hi, Option.bind_some] at hj
  cases k with
  | zero => rfl
  | succ k => exact absurd hj (h.ancestor?_ne_self k)

/-- The ancestors from the next level on are those from a level on without the one at the level. -/
theorem reachesFrom_succ_iff (h : IsForest m) {level : Nat} (reached : ancestor? m level x = some b) :
    ReachesFrom m (level + 1) x a ↔ ReachesFrom m level x a ∧ a ≠ b := by
  constructor
  · rintro ⟨j, hj, ha⟩
    refine ⟨⟨j, by omega, ha⟩, ?_⟩
    rintro rfl
    have := h.level_unique ha reached
    omega
  · rintro ⟨⟨j, hj, ha⟩, hne⟩
    rcases Nat.eq_or_lt_of_le hj with rfl | hlt
    · exact absurd (Option.some.inj (ha.symm.trans reached)) hne
    · exact ⟨j, hlt, ha⟩

/-- No records make a forest. -/
theorem empty : IsForest .empty where
  closed a p hp := by simp [parentOf] at hp
  rooted _ := ⟨1, rfl⟩

/-- A record written over one with the same referrer keeps the forest. -/
theorem put (h : IsForest m) (found : m.get? a = some r) (same : r'.referrer = r.referrer) :
    IsForest (m.insert a r') where
  closed b p hb := by
    classical
    rw [parentOf_insert found same] at hb
    rw [SortedMap.get?_insert]
    split
    · simp
    · exact h.closed b p hb
  rooted b := by
    rw [ancestor?_insert found same]
    exact h.rooted b

section Entering

variable (h : IsForest m) (fresh : m.get? c = none)
include h fresh

/-- Nobody has an account without a record as referrer. -/
theorem ne_of_parentOf {p : AccountId} (hp : parentOf m b = some p) : p ≠ c := by
  rintro rfl
  exact h.closed b p hp fresh

/-- A new account is above nobody who was there, and moves none of them. -/
theorem ancestor?_insert_fresh (hb : b ≠ c) (g : Nat) :
    ancestor? (m.insert c r) g b = ancestor? m g b := by
  induction g generalizing b with
  | zero => rfl
  | succ g ih =>
      rw [ancestor?, ancestor?, parentOf_insert_of_ne hb]
      exact Option.bind_congr fun p hp => ih (h.ne_of_parentOf fresh hp)

/-- The ancestors of a new account are its referrer and those above. -/
theorem ancestor?_insert_self (placed : ∀ p, r.referrer = some p → m.get? p ≠ none) (g : Nat) :
    ancestor? (m.insert c r) (g + 1) c = r.referrer.bind (ancestor? m g) := by
  rw [ancestor?, parentOf_insert_self]
  refine Option.bind_congr fun p hp => h.ancestor?_insert_fresh fresh ?_ g
  rintro rfl
  exact placed p hp fresh

/-- Nobody who was there has a new account above. -/
theorem ancestor?_ne_fresh (hb : b ≠ c) (g : Nat) : ancestor? m g b ≠ some c := by
  intro hg
  cases g with
  | zero => exact hb (Option.some.inj hg)
  | succ g =>
      rw [ancestor?_succ] at hg
      obtain ⟨d, -, hd⟩ := Option.bind_eq_some_iff.mp hg
      exact h.ne_of_parentOf fresh hd rfl

/-- A new account is on nobody's way up but its own. -/
theorem reachesFrom_insert_fresh (hb : b ≠ c) (level : Nat) :
    ReachesFrom (m.insert c r) level b a ↔ ReachesFrom m level b a :=
  exists_congr fun j => by rw [h.ancestor?_insert_fresh fresh hb]

/-- Nobody else reaches an account that is new. -/
theorem not_reachesFrom_fresh (hb : b ≠ c) (level : Nat) : ¬ ReachesFrom m level b c :=
  fun ⟨j, _, hj⟩ => h.ancestor?_ne_fresh fresh hb j hj

/-- **A new account below one that is there** keeps the forest. -/
theorem put_fresh (placed : ∀ p, r.referrer = some p → m.get? p ≠ none) :
    IsForest (m.insert c r) where
  closed b p hb := by
    classical
    rw [SortedMap.get?_insert]
    split
    · simp
    · by_cases hbc : b = c
      · subst hbc
        rw [parentOf_insert_self] at hb
        exact placed p hb
      · rw [parentOf_insert_of_ne hbc] at hb
        exact h.closed b p hb
  rooted b := by
    by_cases hbc : b = c
    · subst hbc
      cases hr : r.referrer with
      | none => exact ⟨1, by rw [h.ancestor?_insert_self fresh placed, hr, Option.bind_none]⟩
      | some p =>
          obtain ⟨g, hg⟩ := h.rooted p
          exact ⟨g + 1, by rw [h.ancestor?_insert_self fresh placed, hr, Option.bind_some, hg]⟩
    · obtain ⟨g, hg⟩ := h.rooted b
      exact ⟨g, by rw [h.ancestor?_insert_fresh fresh hbc, hg]⟩

end Entering

/-- A walk keeps the forest. -/
theorem walk {P : Edit} {L L' : Ledger} (h : IsForest L.records) (walk : Ledger.Walk P L L') :
    IsForest L'.records := by
  refine walk.invariant (I := fun M => IsForest M.records) (fun M M' hs hM => ?_) h
  obtain ⟨found, edits, -, settles⟩ := hs
  obtain ⟨s, t, rfl⟩ := settles.exists_eq_update
  rw [Ledger.put, settles.records_eq]
  exact hM.put found edits.referrer

end IsForest

end Roster

/-! ### Moves -/

/-- Whether a move changes neither stakes nor activity. -/
def Move.Calm : Move → Prop
  | .changeStake _ _ _ | .setActive _ _ _ => False
  | _ => True

section Calm

variable {I : Roster → Prop}
  (fresh : ∀ m c p s, I m → m.get? c = none → (∀ q, p = some q → m.get? q ≠ none) →
    I (m.insert c (.fresh p s)))
  (settled : ∀ m a r s t, I m → m.get? a = some r →
    I (m.insert a { r with status := s, downgradeAt := t }))

include settled in
/-- What holds of the records whatever their tiers and schedules, holds after touching. -/
theorem Ledger.Walk.records_of_touch {now : Timestamp} {L L' : Ledger}
    (h : Ledger.Walk (Edit.touch now) L L') (hI : I L.records) : I L'.records := by
  refine h.invariant (I := fun M => I M.records) (fun M M' hs hM => ?_) hI
  obtain ⟨found, edits, ⟨-, rfl⟩, settles⟩ := hs
  obtain ⟨s, t, rfl⟩ := settles.exists_eq_update
  rw [Ledger.put, settles.records_eq]
  exact settled M.records _ _ s t hM found

include fresh settled in
/-- **What holds of the records**, whoever enters and whatever the tiers and schedules, holds after
every move that changes neither stakes nor activity. -/
theorem Move.Takes.records_invariant {mv : Move} {L L' : Ledger} (h : mv.Takes L L') (calm : mv.Calm)
    (hI : I L.records) : I L'.records := by
  cases h with
  | setParams => exact hI
  | addRoot hnone => exact fresh L.records _ none _ hI hnone (by simp)
  | addReferral hnone placed =>
      exact fresh L.records _ (some _) _ hI hnone fun q hq => Option.some.inj hq ▸ placed
  | register hnone placed parent above =>
      have hput := fresh L.records _ (some _) .new hI hnone fun q hq => Option.some.inj hq ▸ placed
      exact above.records_of_touch settled (parent.records_of_touch settled hput)
  | changeStake course => exact calm.elim
  | setActive course => exact calm.elim
  | reschedule found =>
      next t a r =>
        rw [Ledger.put, Ledger.enqueue, Ledger.records_unschedule]
        exact settled L.records a r r.status (some t) hI found
  | lower found scheduled due settles =>
      next L₁ now u a r r' =>
        obtain ⟨s, t, rfl⟩ := settles.exists_eq_update
        rw [Ledger.put, settles.records_eq]
        exact settled L.records a r s t hI found

end Calm

/-- **A move keeps the forest a forest.** -/
theorem Move.Takes.isForest {mv : Move} {L L' : Ledger} (h : mv.Takes L L')
    (full : Roster.Full L.records) (forest : Roster.IsForest L.records) :
    Roster.IsForest L'.records := by
  by_cases calm : mv.Calm
  · exact h.records_invariant (fun m c p s hm hnone placed => hm.put_fresh hnone placed)
      (fun m a r s t hm found => hm.put found rfl) calm forest
  · cases h with
    | changeStake course => exact forest.walk (Cascade.walk_changeStake full course)
    | setActive course => exact forest.walk (Cascade.walk_setActive full course)
    | _ => exact absurd trivial calm

end ReferralForest

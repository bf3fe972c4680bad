import ReferralForest.Proofs.Cascade.Opposites

/-!
# Taking a Flip Back

A flip is a chain of messages up the ancestors: each of them changes the tallies of one ancestor and is
followed by a count in one of its generations, and depends on nothing but the record below it. The opposite
flip sends the opposite messages along the same chain, in the same order, and every record is as it was.

That both meet the same records takes the accounts on the way up to be different from each other.

## Main definitions

* `Roster.Whole` — the records are as they are read from a store.
* `Roster.ascent` — the accounts on the way up.
* `Roster.Tells`, `Roster.Relays` — a message to an account, and the messages along its ancestors.
* `Roster.Toggles` — an account becomes active or ceases to be.

## Main statements

* `Roster.Relays.insert` — messages have nothing to do with the records of those who get none.
* `Roster.Relays.reverse`, `Roster.Toggles.reverse` — the opposite messages take a chain back.
-/

namespace ReferralForest

open Cascade (flipSign)

namespace Record

variable {r r' : Record}

/-- **A record as it is read**: it has all its generation counts, and no more than can be written. -/
structure Whole (r : Record) : Prop where
  padded : generationCount ≤ r.generations.length
  fits : r.Fits

/-- A record with as many generation counts as a whole one is whole. -/
theorem Whole.congr (h : r.Whole) (same : r'.generations.length = r.generations.length) : r'.Whole where
  padded := same ▸ h.padded
  fits := by rw [Fits, same]; exact h.fits

end Record

namespace Roster

variable {m m₁ m' : Roster} {a b c : AccountId} {x : Option AccountId} {r r' s : Record} {t : Tallies}
  {told told' : Tallies → Option Tallies} {active : Bool} {delta : Int} {levels generation : Nat}

/-- All records are as they are read. -/
def Whole (m : Roster) : Prop := ∀ a r, m.get? a = some r → r.Whole

/-- Whole records have all their generation counts. -/
theorem Whole.padded (h : Whole m) : Padded m := fun a r hr => (h a r hr).padded

/-- Records stay whole when a whole one is written. -/
theorem Whole.insert (h : Whole m) (hr : r.Whole) : Whole (m.insert a r) := SortedMap.forall_insert h hr

/-! ### The accounts on the way up -/

/-- **The accounts on the way up** from one on, that one included, so many at most. -/
def ascent (m : Roster) : Nat → Option AccountId → List AccountId
  | 0, _ | _ + 1, none => []
  | n + 1, some a => a :: ascent m n (parentOf m a)

/-- The accounts on the way up depend on the referrers only. -/
theorem ascent_congr (h : parentOf m' = parentOf m) : ascent m' = ascent m := by
  funext n x
  induction n generalizing x with
  | zero => rfl
  | succ n ih =>
      cases x with
      | none => rfl
      | some a => rw [ascent, ascent, h, ih]

/-- Nobody on the way up is its own parent, if nobody is met twice. -/
theorem parentOf_ne_self {n : Nat} (distinct : (ascent m (n + 3) (some a)).Nodup)
    (placed : parentOf m a = some b) : parentOf m b ≠ some b := by
  intro hself
  rw [ascent, placed, ascent, hself] at distinct
  exact (List.nodup_cons.mp (List.nodup_cons.mp distinct).2).1 List.mem_cons_self

/-! ### Messages to an account -/

/-- **A message to an account about its tallies**, if there is such an account and it has a record. -/
inductive Tells (told : Tallies → Option Tallies) : Option AccountId → Roster → Roster → Prop
  /-- There is nobody to tell. -/
  | nobody {m : Roster} : Tells told none m m
  /-- There is no record to change. -/
  | missing {m : Roster} {a : AccountId} (missing : m.get? a = none) : Tells told (some a) m m
  /-- The tallies of the record are changed. -/
  | found {m : Roster} {a : AccountId} {r : Record} {t : Tallies} (found : m.get? a = some r)
      (heard : told r.tallies = some t) : Tells told (some a) m (m.insert a { r with tallies := t })

namespace Tells

/-- A message that changes nothing. -/
theorem still (x : Option AccountId) (m : Roster) : Tells some x m m := by
  cases x with
  | none => exact .nobody
  | some a =>
      cases hr : m.get? a with
      | none => exact .missing hr
      | some r =>
          have hfound : Tells some (some a) m (m.insert a { r with tallies := r.tallies }) :=
            .found hr rfl
          rwa [SortedMap.insert_of_get? hr] at hfound

/-- What changes nothing changes nothing. -/
theorem eq_of_still (h : Tells some x m m') : m' = m := by
  cases h with
  | nobody => rfl
  | missing => rfl
  | found hm hheard =>
      obtain rfl := Option.some.inj hheard
      exact SortedMap.insert_of_get? hm

/-- **Two messages in one**. -/
theorem bind_iff : Tells (fun t => (told t).bind told') x m m' ↔
    ∃ m₁, Tells told x m m₁ ∧ Tells told' x m₁ m' := by
  constructor
  · intro h
    cases h with
    | nobody => exact ⟨_, .nobody, .nobody⟩
    | missing hm => exact ⟨_, .missing hm, .missing hm⟩
    | found hm hheard =>
        next a r t' =>
          obtain ⟨t, ht, ht'⟩ := Option.bind_eq_some_iff.mp hheard
          have hsecond : Tells told' (some a) (m.insert a { r with tallies := t })
              ((m.insert a { r with tallies := t }).insert a
                { { r with tallies := t } with tallies := t' }) :=
            .found (SortedMap.get?_insert_self _ _ _) ht'
          rw [SortedMap.insert_insert] at hsecond
          exact ⟨_, .found hm ht, hsecond⟩
  · rintro ⟨m₁, h, h'⟩
    cases h with
    | nobody =>
        cases h'
        exact .nobody
    | missing hm =>
        cases h' with
        | missing => exact .missing hm
        | found hm' => rw [hm] at hm'; contradiction
    | found hm hheard =>
        next a r t =>
          cases h' with
          | missing hm' => rw [SortedMap.get?_insert_self] at hm'; contradiction
          | found hm' hheard' =>
              next r₁ t₁ =>
                rw [SortedMap.get?_insert_self] at hm'
                obtain rfl := Option.some.inj hm'
                have hboth : Tells (fun t => (told t).bind told') (some a) m
                    (m.insert a { r with tallies := t₁ }) :=
                  .found hm (by rw [hheard, Option.bind_some, hheard'])
                rwa [SortedMap.insert_insert]

/-- A message has nothing to do with the records of others. -/
theorem insert (h : Tells told x m m') (other : x ≠ some c) (s : Record) :
    Tells told x (m.insert c s) (m'.insert c s) := by
  cases h with
  | nobody => exact .nobody
  | missing hm =>
      next a => exact .missing (by rwa [SortedMap.get?_insert_of_ne _ _ fun e => other (congrArg some e)])
  | found hm hheard =>
      next a r t =>
        have hne : a ≠ c := fun e => other (congrArg some e)
        rw [SortedMap.insert_comm _ hne]
        exact .found (by rwa [SortedMap.get?_insert_of_ne _ _ hne]) hheard

/-- A message changes the record of the account that gets it. -/
theorem get?_eq (h : Tells told x m m') (other : x ≠ some c) : m'.get? c = m.get? c := by
  cases h with
  | nobody => rfl
  | missing => rfl
  | found => exact SortedMap.get?_insert_of_ne _ _ fun e => other (congrArg some e.symm)

/-- A message keeps records whole. -/
theorem whole (h : Tells told x m m') (whole : Whole m) : Whole m' := by
  cases h with
  | nobody => exact whole
  | missing => exact whole
  | found hm => exact whole.insert ((whole _ _ hm).congr rfl)

/-- **A message is taken back** by the opposite one. -/
theorem reverse (h : Tells told x m m') (undoes : Tallies.Undoes told told') : Tells told' x m' m := by
  cases h with
  | nobody => exact .nobody
  | missing hm => exact .missing hm
  | found hm hheard =>
      next a r t =>
        have hback : Tells told' (some a) (m.insert a { r with tallies := t })
            ((m.insert a { r with tallies := t }).insert a
              { { r with tallies := t } with tallies := r.tallies }) :=
          .found (SortedMap.get?_insert_self _ _ _) (undoes _ _ hheard)
        rwa [SortedMap.insert_insert, SortedMap.insert_of_get? hm] at hback

/-- A message moves nobody. -/
theorem parentOf_eq (h : Tells told x m m') : parentOf m' = parentOf m := by
  cases h with
  | nobody => rfl
  | missing => rfl
  | found hm => exact parentOf_insert hm rfl

end Tells

/-! ### Messages along the ancestors -/

/-- **The messages along the ancestors of a flipped account.** Each ancestor is told something, counts the
account in or out of its generation, and tells the next one. The last one that is told does not count any
more. -/
inductive Relays (active : Bool) : (levels generation : Nat) → (Tallies → Option Tallies) →
    Option AccountId → Roster → Roster → Prop
  /-- The depth of counting is reached. -/
  | last {generation : Nat} {told : Tallies → Option Tallies} {x : Option AccountId} {m m' : Roster}
      (tells : Tells told x m m') : Relays active 0 generation told x m m'
  /-- There is nobody above. -/
  | nobody {levels generation : Nat} {told : Tallies → Option Tallies} {m : Roster} :
      Relays active (levels + 1) generation told none m m
  /-- The next ancestor has no record. -/
  | missing {levels generation : Nat} {told : Tallies → Option Tallies} {m : Roster} {a : AccountId}
      (missing : m.get? a = none) : Relays active (levels + 1) generation told (some a) m m
  /-- The next ancestor is told and counts, and then those above. -/
  | next {levels generation : Nat} {told : Tallies → Option Tallies} {m m' : Roster} {a : AccountId}
      {r r' : Record} {t : Tallies} (found : m.get? a = some r) (heard : told r.tallies = some t)
      (counted : { r with tallies := t }.shiftGeneration? generation (flipSign active) = some r')
      (above : Relays active levels (generation + 1) (r.tells active generation r') r.referrer
        (m.insert a r') m') :
      Relays active (levels + 1) generation told (some a) m m'

/-- Counting changes one counter. -/
theorem same_of_shiftGeneration? (h : r.shiftGeneration? generation delta = some r') :
    r'.referrer = r.referrer ∧ r'.active = r.active ∧ r'.tallies = r.tallies ∧
      r'.generations.length = r.generations.length := by
  obtain ⟨counter, moved, -, -, rfl⟩ := Cascade.shiftGeneration?_eq_some h
  exact ⟨rfl, rfl, rfl, List.length_set⟩

namespace Relays

/-- **The first message in two.** -/
theorem bind_iff : Relays active levels generation (fun t => (told t).bind told') x m m' ↔
    ∃ m₁, Tells told x m m₁ ∧ Relays active levels generation told' x m₁ m' := by
  constructor
  · intro h
    cases h with
    | last tells =>
        obtain ⟨m₁, hfirst, hsecond⟩ := Tells.bind_iff.mp tells
        exact ⟨m₁, hfirst, .last hsecond⟩
    | nobody => exact ⟨_, .nobody, .nobody⟩
    | missing hm => exact ⟨_, .missing hm, .missing hm⟩
    | next found heard counted above =>
        next levels a r r' t' =>
          obtain ⟨t, ht, ht'⟩ := Option.bind_eq_some_iff.mp heard
          refine ⟨_, .found found ht, .next (SortedMap.get?_insert_self _ _ _) ht' counted ?_⟩
          rwa [SortedMap.insert_insert]
  · rintro ⟨m₁, h, h'⟩
    cases h' with
    | last tells => exact .last (Tells.bind_iff.mpr ⟨m₁, h, tells⟩)
    | nobody =>
        cases h
        exact .nobody
    | missing hm =>
        cases h with
        | missing => exact .missing hm
        | found => rw [SortedMap.get?_insert_self] at hm; contradiction
    | next found heard counted above =>
        cases h with
        | missing hm => rw [hm] at found; contradiction
        | found hm hheard =>
            rw [SortedMap.get?_insert_self] at found
            obtain rfl := Option.some.inj found
            rw [SortedMap.insert_insert] at above
            exact .next hm (by rw [hheard, Option.bind_some, heard]) counted above

/-- Who is not on the way up keeps its record. -/
theorem get?_eq (h : Relays active levels generation told x m m')
    (other : c ∉ ascent m (levels + 1) x) : m'.get? c = m.get? c := by
  induction h with
  | last tells =>
      refine tells.get?_eq fun hx => other ?_
      rw [hx]
      exact List.mem_cons_self
  | nobody => rfl
  | missing => rfl
  | next found _ counted _ ih =>
      obtain ⟨hca, habove⟩ := not_or.mp (List.mem_cons.not.mp other)
      obtain ⟨hreferrer, -, -, -⟩ := same_of_shiftGeneration? counted
      rw [parentOf_of_get? found] at habove
      rw [ih (by rwa [ascent_congr (parentOf_insert found hreferrer)]),
        SortedMap.get?_insert_of_ne _ _ hca]

/-- The messages have nothing to do with the records of those who are not on the way up. -/
theorem insert (h : Relays active levels generation told x m m')
    (other : c ∉ ascent m (levels + 1) x) (s : Record) :
    Relays active levels generation told x (m.insert c s) (m'.insert c s) := by
  induction h with
  | last tells =>
      refine .last (tells.insert (fun hx => other ?_) s)
      rw [hx]
      exact List.mem_cons_self
  | nobody => exact .nobody
  | missing hm =>
      obtain ⟨hca, -⟩ := not_or.mp (List.mem_cons.not.mp other)
      exact .missing (by rwa [SortedMap.get?_insert_of_ne _ _ (Ne.symm hca)])
  | next found heard counted _ ih =>
      obtain ⟨hca, habove⟩ := not_or.mp (List.mem_cons.not.mp other)
      obtain ⟨hreferrer, -, -, -⟩ := same_of_shiftGeneration? counted
      rw [parentOf_of_get? found] at habove
      have hrest := ih (by rwa [ascent_congr (parentOf_insert found hreferrer)])
      rw [SortedMap.insert_comm _ (Ne.symm hca)] at hrest
      exact .next (by rwa [SortedMap.get?_insert_of_ne _ _ (Ne.symm hca)]) heard counted hrest

/-- The messages move nobody. -/
theorem parentOf_eq (h : Relays active levels generation told x m m') : parentOf m' = parentOf m := by
  induction h with
  | last tells => exact tells.parentOf_eq
  | nobody => rfl
  | missing => rfl
  | next found _ counted _ ih =>
      exact ih.trans (parentOf_insert found (same_of_shiftGeneration? counted).1)

/-- The messages keep records whole. -/
theorem whole (h : Relays active levels generation told x m m') (whole : Whole m) : Whole m' := by
  induction h with
  | last tells => exact tells.whole whole
  | nobody => exact whole
  | missing => exact whole
  | next found _ counted _ ih =>
      obtain ⟨-, -, -, hlength⟩ := same_of_shiftGeneration? counted
      exact ih (whole.insert ((whole _ _ found).congr hlength))

/-- **A chain of messages is taken back** by the opposite one, if it meets nobody twice, and if the parent
of the flipped account, should it be the first, is told about its first line. -/
theorem reverse (h : Relays active levels generation told x m m')
    (distinct : (ascent m (levels + 1) x).Nodup) (undoes : Tallies.Undoes told told')
    (above : generation ≠ 0) (moves : generation = 1 → ∀ t t', told t = some t' →
      t'.firstLine.toInt = t.firstLine.toInt + flipSign active) :
    Relays (!active) levels generation told' x m' m := by
  induction h generalizing told' with
  | last tells => exact .last (tells.reverse undoes)
  | nobody => exact .nobody
  | missing hm => exact .missing hm
  | next found heard counted rest ih =>
      next levels generation told m m' a r r' t =>
        obtain ⟨hfresh, hdistinct⟩ := List.nodup_cons.mp distinct
        obtain ⟨hreferrer, hactive, htallies, -⟩ := same_of_shiftGeneration? counted
        rw [parentOf_of_get? found] at hfresh hdistinct
        have hplaces : ascent (m.insert a r') = ascent m := ascent_congr (parentOf_insert found hreferrer)
        have hfound' : m'.get? a = some r' := by
          rw [rest.get?_eq (by rwa [hplaces]), SortedMap.get?_insert_self]
        have hheard : told' r'.tallies = some r.tallies := by rw [htallies, undoes _ _ heard]
        have hcounted : { r' with tallies := r.tallies }.shiftGeneration? generation
            (flipSign (!active)) = some r := by
          rw [Record.flipSign_not, Record.shiftGeneration?_tallies, Record.shiftGeneration?_neg counted,
            Option.map_some]
        have hundoes : Tallies.Undoes (r.tells active generation r') (r'.tells (!active) generation r) :=
          Record.undoes_tells hactive fun hparent => htallies ▸ moves hparent _ _ heard
        have hrest : Relays (!active) levels (generation + 1) (r'.tells (!active) generation r)
            r'.referrer (m'.insert a r) m := by
          have hfresh' : a ∉ ascent m' (levels + 1) r.referrer := by
            rwa [ascent_congr rest.parentOf_eq, hplaces]
          have hback := (ih (by rwa [hplaces]) hundoes (Nat.succ_ne_zero _) fun hfirst =>
            absurd (Nat.succ.inj hfirst) above).insert hfresh' r
          rwa [SortedMap.insert_insert, SortedMap.insert_of_get? found, ← hreferrer] at hback
        exact .next hfound' hheard hcounted hrest

end Relays

/-! ### Flips -/

/-- **An account becomes active or ceases to be.** Its own record is flipped, its parent is told that it
counts in or out of the first line, and the messages go on from there. -/
inductive Toggles (active : Bool) (a : AccountId) : Roster → Roster → Prop
  | intro {m m' : Roster} {r r' : Record} (found : m.get? a = some r) (flips : r.active ≠ active)
      (flipped : { r with active }.shiftGeneration? 0 (flipSign active) = some r')
      (above : Relays active maxDepth 1 (Tallies.shiftChild? r'.activeTeamSize
        ((byThree : Int) ≤ r'.tallies.firstLine.toInt) (flipSign active)) r.referrer
        (m.insert a r') m') : Toggles active a m m'

namespace Toggles

/-- **A flip is taken back** by the opposite one, if nobody is met twice on the way up. -/
theorem reverse (h : Toggles active a m m') (distinct : (ascent m (maxDepth + 2) (some a)).Nodup) :
    Toggles (!active) a m' m := by
  obtain ⟨found, flips, flipped, above⟩ := h
  next r r' =>
    obtain ⟨hactive, hreferrer, htallies, -, hsize⟩ := Record.same_of_flip flipped
    obtain ⟨hfresh, hdistinct⟩ := List.nodup_cons.mp distinct
    rw [parentOf_of_get? found] at hfresh hdistinct
    have hplaces : ascent (m.insert a r') = ascent m := ascent_congr (parentOf_insert found hreferrer)
    have hfound' : m'.get? a = some r' := by
      rw [above.get?_eq (by rwa [hplaces]), SortedMap.get?_insert_self]
    have hback := above.reverse (by rwa [hplaces]) (fun _ _ => Tallies.shiftChild?_neg) one_ne_zero
      fun _ t t' hshift => Tallies.get_of_shiftChild? hshift .firstLine
    have hrest := hback.insert (by rwa [ascent_congr above.parentOf_eq, hplaces]) r
    rw [SortedMap.insert_insert, SortedMap.insert_of_get? found, ← Record.flipSign_not, hsize, htallies,
      ← hreferrer] at hrest
    exact .intro hfound' (hactive ▸ Bool.self_ne_not active) (Record.flip_neg flips flipped) hrest

/-- A flip keeps records whole. -/
theorem whole (h : Toggles active a m m') (whole : Whole m) : Whole m' := by
  obtain ⟨found, flips, flipped, above⟩ := h
  obtain ⟨-, -, -, hlength, -⟩ := Record.same_of_flip flipped
  exact above.whole (whole.insert ((whole _ _ found).congr hlength))

/-- A flip moves nobody. -/
theorem parentOf_eq (h : Toggles active a m m') : parentOf m' = parentOf m := by
  obtain ⟨found, flips, flipped, above⟩ := h
  obtain ⟨-, hreferrer, -, -, -⟩ := Record.same_of_flip flipped
  exact above.parentOf_eq.trans (parentOf_insert found hreferrer)

/-- Who is flipped was not as asked for. -/
theorem exists_flips (h : Toggles active a m m') : ∃ r, m.get? a = some r ∧ r.active ≠ active := by
  obtain ⟨found, flips, -, -⟩ := h
  exact ⟨_, found, flips⟩

end Toggles

end Roster

end ReferralForest

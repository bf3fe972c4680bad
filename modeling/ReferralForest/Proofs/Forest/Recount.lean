import ReferralForest.Proofs.Forest.Lineage
import ReferralForest.Proofs.SortedMap.Totals

/-!
# Recounting

What the counts in a record ought to be, computed from the whole forest: how many active accounts lie
at each generation below an account, how many of its referrals are active, how many of those have three
active referrals, and how many have an active team of each size class. While a flip spreads, the counts
are right up to what the flip still owes: the generations it has not reached, and one correction to the
tallies of a single account.

## Main definitions

* `TeamClass`, `TallyKind` — the size classes of teams, and what is counted about a first line.
* `Roster.activeAt`, `Roster.activeChildren` — the counts, recomputed.
* `Roster.CountedFrom`, `Roster.TalliedUpTo` — the counts are right up to what is owed.

## Main statements

* `CountedFrom.advance` — counting a flip at one ancestor leaves the levels above it.
* `TalliedUpTo.put` — correcting the tallies of an account leaves a correction to its referrer.
-/

namespace ReferralForest

/-- The size classes of teams. -/
inductive TeamClass where
  | below15 | below50 | below100 | below300 | rest
  deriving DecidableEq

/-- The size classes, smallest first. -/
def TeamClass.all : List TeamClass := [below15, below50, below100, below300, rest]

/-- The class of a team with so many members. -/
def TeamClass.ofSize (size : Nat) : TeamClass :=
  if size < 15 then below15
  else if size < 50 then below50
  else if size < 100 then below100
  else if size < 300 then below300
  else rest

/-- What is counted about a first line. -/
inductive TallyKind where
  /-- The active referrals. -/
  | firstLine
  /-- Those of them with three active referrals of their own. -/
  | byThree
  /-- Those of them whose team is of a size class. -/
  | team (c : TeamClass)
  deriving DecidableEq

/-- The count of a kind. -/
def Tallies.get (t : Tallies) : TallyKind → Int64
  | .firstLine => t.firstLine
  | .byThree => t.firstLineByThree
  | .team .below15 => t.team0
  | .team .below50 => t.team15
  | .team .below100 => t.team50
  | .team .below300 => t.team100
  | .team .rest => t.team300

/-- Whether an active account counts for a kind, by what its record says. -/
def Record.countsFor (r : Record) : TallyKind → Bool
  | .firstLine => true
  | .byThree => (byThree : Int) ≤ r.tallies.firstLine.toInt
  | .team c => TeamClass.ofSize r.activeTeamSize = c

/-- What an account adds to the tallies of its referrer. -/
def Record.weight (r : Record) (k : TallyKind) : Int := if r.active && r.countsFor k then 1 else 0

/-! ### Shifts of single counts -/

/-- A count is moved by the difference. -/
theorem toInt_of_countShift? {n n' : Int64} {delta : Int} (h : countShift? n delta = some n') :
    n'.toInt = n.toInt + delta := by
  simp only [countShift?] at h
  split at h
  next hrange =>
      rw [← Option.some.inj h]
      exact Int64.toInt_ofInt_of_le hrange.1 (Int.lt_of_le_of_lt hrange.2 (by decide))
  next => contradiction

/-- A counter is moved by the difference. -/
theorem toNat_of_counterShift? {n n' : UInt64} {delta : Int} (h : counterShift? n delta = some n') :
    (n'.toNat : Int) = n.toNat + delta := by
  simp only [counterShift?] at h
  split at h
  next hrange =>
      rw [← Option.some.inj h, UInt64.toNat_ofNat_of_lt' (by omega)]
      exact Int.toNat_of_nonneg hrange.1
  next => contradiction

namespace Tallies

variable {t t' : Tallies} {delta : Int} {size before after : Nat}

/-- A shift of the size class of a team moves the count of that class. -/
theorem get_of_shiftTeam? (h : t.shiftTeam? size delta = some t') (k : TallyKind) :
    (t'.get k).toInt = (t.get k).toInt + if k = .team (.ofSize size) then delta else 0 := by
  simp only [shiftTeam?, TeamClass.ofSize] at h ⊢
  split_ifs at h with h15 h50 h100 h300 <;>
  · obtain ⟨n, hn, rfl⟩ := Option.map_eq_some_iff.mp h
    have hshift := toInt_of_countShift? hn
    rcases k with _ | _ | _ | _ | _ | _ | _ <;> simp [get, *]

/-- A shift of the first line moves that count and no other. -/
theorem get_of_shiftFirstLine? (h : t.shiftFirstLine? delta = some t') (k : TallyKind) :
    (t'.get k).toInt = (t.get k).toInt + if k = .firstLine then delta else 0 := by
  obtain ⟨n, hn, rfl⟩ := Option.map_eq_some_iff.mp h
  have := toInt_of_countShift? hn
  rcases k with _ | _ | _ | _ | _ | _ | _ <;> simp [get, this]

/-- A shift of the count by three moves that count and no other. -/
theorem get_of_shiftByThree? (h : t.shiftByThree? delta = some t') (k : TallyKind) :
    (t'.get k).toInt = (t.get k).toInt + if k = .byThree then delta else 0 := by
  obtain ⟨n, hn, rfl⟩ := Option.map_eq_some_iff.mp h
  have := toInt_of_countShift? hn
  rcases k with _ | _ | _ | _ | _ | _ | _ <;> simp [get, this]

/-- **A child that counts in or out** moves the counts of all kinds it counts for. -/
theorem get_of_shiftChild? {three : Bool} (h : t.shiftChild? size three delta = some t')
    (k : TallyKind) : (t'.get k).toInt = (t.get k).toInt +
      if k = .firstLine ∨ k = .byThree ∧ three = true ∨ k = .team (.ofSize size) then delta
      else 0 := by
  simp only [shiftChild?, Option.bind_eq_bind, Option.bind_eq_some_iff] at h
  obtain ⟨t₁, h₁, t₂, h₂, h₃⟩ := h
  have hteam := get_of_shiftTeam? h₁ k
  have hline := get_of_shiftFirstLine? h₂ k
  have hthree : (t'.get k).toInt =
      (t₂.get k).toInt + if k = .byThree ∧ three = true then delta else 0 := by
    cases three with
    | true => simpa using get_of_shiftByThree? h₃ k
    | false => simp [Option.some.inj h₃]
  rw [hthree, hline, hteam]
  rcases k with _ | _ | c <;> simp

/-- A team that moves from one class to another moves the counts of the two. -/
theorem get_of_moveTeam? (h : t.moveTeam? before after = some t') (k : TallyKind) :
    (t'.get k).toInt = (t.get k).toInt +
      ((if k = .team (.ofSize after) then 1 else 0) -
        (if k = .team (.ofSize before) then 1 else 0)) := by
  simp only [moveTeam?, Option.bind_eq_bind, Option.bind_eq_some_iff] at h
  obtain ⟨t₁, h₁, h₂⟩ := h
  have hout := get_of_shiftTeam? h₁ k
  have hin := get_of_shiftTeam? h₂ k
  rw [hin, hout]
  split_ifs <;> omega

end Tallies

namespace Roster

/-! ### The counts, recomputed -/

/-- The number of active accounts at a generation below an account. -/
def activeAt (m : Roster) (a : AccountId) (g : Nat) : Nat :=
  m.count fun b r => r.active && ancestor? m g b = some a

/-- The number of active referrals of an account that pass a test. -/
def activeChildren (m : Roster) (a : AccountId) (p : AccountId → Bool) : Nat :=
  m.count fun b r => r.active && r.referrer = some a && p b

/-- The number of active members of an account's team: generations 1 to 13. -/
def activeTeam (m : Roster) (a : AccountId) : Nat :=
  ((List.range' 1 13).map (activeAt m a)).sum

/-- **What ought to be counted about a first line**, by activity and lineage alone. -/
def tally (m : Roster) (a : AccountId) : TallyKind → Nat
  | .firstLine => activeChildren m a fun _ => true
  | .byThree => activeChildren m a fun b => ReferralForest.byThree ≤ activeChildren m b fun _ => true
  | .team c => activeChildren m a fun b => TeamClass.ofSize (activeTeam m b) = c

/-- The number of active referrals that count for a kind by what their records say. -/
def childrenFor (m : Roster) (a : AccountId) (k : TallyKind) : Nat :=
  m.count fun _ r => (r.active && r.countsFor k) && r.referrer = some a

/-- **The generations are counted from a level on up to a flip** of an account: at the ancestors from
that level on the sign of the flip is still to be added. -/
def CountedFrom (m : Roster) (x : AccountId) (delta : Int) (level : Nat) : Prop :=
  ∀ a r g n, m.get? a = some r → r.generations[g]? = some n →
    (n.toNat : Int) + (if level ≤ g ∧ ancestor? m g x = some a then delta else 0) = activeAt m a g

/-- The generations are counted. -/
def Counted (m : Roster) : Prop :=
  ∀ a r g n, m.get? a = some r → r.generations[g]? = some n → n.toNat = activeAt m a g

/-- **The tallies are right up to a correction** of those of one account. -/
def TalliedUpTo (m : Roster) (owner : Option AccountId) (owed : TallyKind → Int) : Prop :=
  ∀ a r k, m.get? a = some r →
    (r.tallies.get k).toInt + (if owner = some a then owed k else 0) = childrenFor m a k

/-- The tallies agree with what the records of the referrals say. -/
def Tallied (m : Roster) : Prop :=
  ∀ a r k, m.get? a = some r → (r.tallies.get k).toInt = childrenFor m a k

variable {m : Roster} {a b c x : AccountId} {r r' : Record} {delta : Int} {level : Nat}
  {owner : Option AccountId} {owed : TallyKind → Int}

/-! ### Generations -/

/-- A record written over one with the same referrer moves a count by its own activity. -/
theorem activeAt_insert (found : m.get? a = some r) (r' : Record) (same : r'.referrer = r.referrer)
    (b : AccountId) (g : Nat) :
    activeAt (m.insert a r') b g + (if r.active ∧ ancestor? m g a = some b then 1 else 0) =
      activeAt m b g + if r'.active ∧ ancestor? m g a = some b then 1 else 0 := by
  have := m.count_insert a r' fun c s => s.active && ancestor? m g c = some b
  rw [found] at this
  simpa only [activeAt, ancestor?_insert found same, Option.map_some, Option.getD_some,
    Bool.and_eq_true, decide_eq_true_eq] using this

/-- **Counting a flip at one ancestor** leaves the levels above it. -/
theorem CountedFrom.advance (h : CountedFrom m x delta level) (found : m.get? a = some r)
    (reached : ancestor? m level x = some a) (active : r'.active = r.active)
    (same : r'.referrer = r.referrer) {counter moved : UInt64}
    (old : r.generations[level]? = some counter) (shift : (moved.toNat : Int) = counter.toNat + delta)
    (new : r'.generations = r.generations.set level moved) :
    CountedFrom (m.insert a r') x delta (level + 1) := by
  classical
  intro b s g n hs hn
  have hcount : activeAt (m.insert a r') b g = activeAt m b g := by
    have := activeAt_insert found r' same b g
    rw [active] at this
    omega
  rw [hcount, ancestor?_insert found same]
  rw [SortedMap.get?_insert] at hs
  split at hs
  next hb =>
      obtain rfl := Option.some.inj hs
      subst hb
      rw [new, List.getElem?_set] at hn
      split at hn
      next hg =>
          subst hg
          have hlt : level < r.generations.length := (List.getElem?_eq_some_iff.mp old).1
          rw [if_pos hlt] at hn
          have hcounter := h b r level counter found old
          rw [if_pos ⟨Nat.le_refl level, reached⟩] at hcounter
          rw [if_neg (by omega), ← Option.some.inj hn, shift]
          omega
      next hg =>
          have hold := h b r g n found hn
          have hlevel : level + 1 ≤ g ↔ level ≤ g := by omega
          simpa only [hlevel] using hold
  next hb =>
      have hold := h b s g n hs hn
      have hlevel : (level + 1 ≤ g ∧ ancestor? m g x = some b) ↔
          (level ≤ g ∧ ancestor? m g x = some b) := by
        refine ⟨fun hg => ⟨by omega, hg.2⟩, fun hg => ⟨?_, hg.2⟩⟩
        rcases Nat.eq_or_lt_of_le hg.1 with rfl | hlt
        · exact absurd (Option.some.inj (hg.2.symm.trans reached)) hb
        · exact hlt
      rwa [if_congr hlevel rfl rfl]

/-- When no ancestor with a record is left, the generations are counted. -/
theorem CountedFrom.counted (h : CountedFrom m x delta level) (full : Full m)
    (done : ∀ g a, level ≤ g → g < generationCount → ancestor? m g x = some a → m.get? a = none) :
    Counted m := by
  intro a r g n found hn
  have hlt : g < r.generations.length := (List.getElem?_eq_some_iff.mp hn).1
  rw [full a r found] at hlt
  have hcount := h a r g n found hn
  rw [if_neg] at hcount
  · omega
  · rintro ⟨hlevel, hg⟩
    exact absurd (found.symm.trans (done g a hlevel hlt hg)) (by simp)

/-- A record written over one that differs in nothing that is counted changes nothing about what is
owed. -/
theorem CountedFrom.put (h : CountedFrom m x delta level) (found : m.get? a = some r)
    (active : r'.active = r.active) (same : r'.referrer = r.referrer)
    (generations : r'.generations = r.generations) : CountedFrom (m.insert a r') x delta level := by
  classical
  intro b s g n hs hn
  have hcount := activeAt_insert found r' same b g
  rw [active] at hcount
  rw [Nat.add_right_cancel hcount, ancestor?_insert found same]
  rw [SortedMap.get?_insert] at hs
  split at hs
  next hb =>
      obtain rfl := Option.some.inj hs
      rw [generations] at hn
      exact h b r g n (hb ▸ found) hn
  next => exact h b s g n hs hn

/-- Nothing is owed to the generations. -/
theorem counted_iff (x : AccountId) (level : Nat) : Counted m ↔ CountedFrom m x 0 level := by
  simp only [Counted, CountedFrom, ite_self, Int.add_zero, Int.natCast_inj]

/-- A record written over one that differs in nothing that is counted keeps the counts. -/
theorem Counted.put (h : Counted m) (found : m.get? a = some r) (active : r'.active = r.active)
    (same : r'.referrer = r.referrer) (generations : r'.generations = r.generations) :
    Counted (m.insert a r') := by
  rw [counted_iff a 0] at h ⊢
  exact h.put found active same generations

/-- **A flip** is owed to the account itself and to all its ancestors. -/
theorem Counted.flip (h : Counted m) (found : m.get? a = some r) {active : Bool}
    (flips : r.active ≠ active) :
    CountedFrom (m.insert a { r with active }) a (Cascade.flipSign active) 0 := by
  classical
  intro b s g n hs hn
  have hflipped := activeAt_insert found { r with active } rfl b g
  have hold : n.toNat = activeAt m b g := by
    rw [SortedMap.get?_insert] at hs
    split at hs
    next hb =>
        obtain rfl := Option.some.inj hs
        exact h b r g n (hb ▸ found) hn
    next => exact h b s g n hs hn
  rw [show ancestor? (m.insert a { r with active }) = ancestor? m from ancestor?_insert found rfl,
    hold, Cascade.flipSign]
  have hbefore : r.active = !active := by cases hr : r.active <;> cases active <;> simp_all
  by_cases habove : ancestor? m g a = some b
  · cases active <;> simp [hbefore, habove] at hflipped ⊢ <;> omega
  · simpa [habove] using hflipped.symm

/-- **A new account** counts nowhere, and nobody counts for it. -/
theorem Counted.put_fresh (h : Counted m) (forest : IsForest m) (fresh : m.get? c = none)
    (inactive : r.active = false)
    (zero : ∀ (g : Nat) (n : UInt64), r.generations[g]? = some n → n = 0) : Counted (m.insert c r) := by
  classical
  intro b s g n hs hn
  have hsame : activeAt (m.insert c r) b g = activeAt m b g := by
    have hinsert := m.count_insert c r fun d s => s.active && ancestor? m g d = some b
    rw [fresh] at hinsert
    have hcongr : activeAt (m.insert c r) b g =
        (m.insert c r).count fun d s => s.active && ancestor? m g d = some b := by
      refine SortedMap.count_congr fun d s hd => ?_
      rw [SortedMap.get?_insert] at hd
      split at hd
      next hdc => rw [← Option.some.inj hd, inactive, Bool.false_and, Bool.false_and]
      next hdc => rw [forest.ancestor?_insert_fresh fresh hdc]
    rw [hcongr]
    simpa [inactive, activeAt] using hinsert
  rw [hsame]
  rw [SortedMap.get?_insert] at hs
  split at hs
  next hb =>
      subst hb
      obtain rfl := Option.some.inj hs
      rw [zero g n hn]
      refine (SortedMap.count_eq_zero fun d s hd => ?_).symm
      have hne : d ≠ b := fun e => by rw [e, fresh] at hd; contradiction
      simp [forest.ancestor?_ne_fresh fresh hne g]
  next => exact h b s g n hs hn

/-! ### Tallies -/

/-- A record written over one with the same referrer moves the referrer's tallies by the change of
weight. -/
theorem childrenFor_insert (found : m.get? a = some r) (same : r'.referrer = r.referrer)
    (b : AccountId) (k : TallyKind) :
    (childrenFor (m.insert a r') b k : Int) =
      childrenFor m b k + if r.referrer = some b then r'.weight k - r.weight k else 0 := by
  have hcount := m.count_insert a r' fun _ s => (s.active && s.countsFor k) && s.referrer = some b
  rw [found] at hcount
  simp only [Option.map_some, Option.getD_some, same] at hcount
  by_cases hb : r.referrer = some b
  · simp only [hb, decide_true, Bool.and_true] at hcount
    rw [if_pos hb, Record.weight, Record.weight, childrenFor, childrenFor]
    split_ifs at hcount ⊢ <;> omega
  · simp only [hb, decide_false, Bool.and_false, Bool.false_eq_true, if_false, Nat.add_zero] at hcount
    rw [if_neg hb, childrenFor, childrenFor, hcount, Int.add_zero]

/-- **Correcting the tallies of an account** leaves a correction to its referrer: the change of the
account's own weight. -/
theorem TalliedUpTo.put (h : TalliedUpTo m (some a) owed) (forest : IsForest m)
    (found : m.get? a = some r) (r' : Record) (same : r'.referrer = r.referrer)
    (paid : ∀ k, (r'.tallies.get k).toInt = (r.tallies.get k).toInt + owed k) :
    TalliedUpTo (m.insert a r') r.referrer fun k => r'.weight k - r.weight k := by
  classical
  intro b s k hs
  have hcount := childrenFor_insert found same b k
  rw [SortedMap.get?_insert] at hs
  split at hs
  next hb =>
      subst hb
      obtain rfl := Option.some.inj hs
      have hself := h b r k found
      rw [if_pos rfl] at hself
      rw [if_neg (forest.referrer_ne_self found)] at hcount ⊢
      rw [hcount, paid]
      omega
  next hb =>
      have hother := h b s k hs
      rw [if_neg fun e => hb (Option.some.inj e).symm, Int.add_zero] at hother
      rw [hcount, hother]

/-- Nothing is owed. -/
theorem Tallied.upTo (h : Tallied m) (owner : Option AccountId) : TalliedUpTo m owner fun _ => 0 := by
  intro a r k found
  rw [ite_self, Int.add_zero]
  exact h a r k found

/-- A correction is settled if there is nothing to correct or nobody to be corrected. -/
theorem TalliedUpTo.tallied (h : TalliedUpTo m owner owed)
    (settled : (∀ k, owed k = 0) ∨ ∀ a, owner = some a → m.get? a = none) : Tallied m := by
  intro a r k found
  have hcount := h a r k found
  rw [ite_eq_right_iff.mpr ?_, Int.add_zero] at hcount
  · exact hcount
  · intro howner
    rcases settled with hzero | hnone
    · exact hzero k
    · rw [hnone a howner] at found
      contradiction

/-- Equal corrections are as good as each other. -/
theorem TalliedUpTo.congr (h : TalliedUpTo m owner owed) {owed' : TallyKind → Int}
    (same : ∀ k, owed' k = owed k) : TalliedUpTo m owner owed' := by
  rwa [show owed' = owed from funext same]

/-- A record written over one that differs in nothing that is tallied keeps the tallies. -/
theorem Tallied.put (h : Tallied m) (forest : IsForest m) (found : m.get? a = some r)
    (same : r'.referrer = r.referrer) (tallies : r'.tallies = r.tallies)
    (weight : ∀ k, r'.weight k = r.weight k) : Tallied (m.insert a r') := by
  have hput := (h.upTo (some a)).put forest found r' same fun k => by rw [tallies, Int.add_zero]
  exact hput.tallied (.inl fun k => by rw [weight k, Int.sub_self])

/-- A new account is tallied nowhere. -/
theorem Tallied.put_fresh (h : Tallied m) (forest : IsForest m) (fresh : m.get? c = none)
    (inactive : r.active = false) (zero : r.tallies = .zero) : Tallied (m.insert c r) := by
  classical
  intro b s k hs
  have hsame : childrenFor (m.insert c r) b k = childrenFor m b k := by
    have hcount := m.count_insert c r fun _ s => (s.active && s.countsFor k) && s.referrer = some b
    rw [fresh] at hcount
    simpa [inactive, childrenFor] using hcount
  rw [hsame]
  rw [SortedMap.get?_insert] at hs
  split at hs
  next hb =>
      subst hb
      obtain rfl := Option.some.inj hs
      have hnobody : childrenFor m b k = 0 := by
        refine SortedMap.count_eq_zero fun d s hd => ?_
        have hne : s.referrer ≠ some b := fun e =>
          forest.ne_of_parentOf fresh ((parentOf_of_get? hd).trans e) rfl
        simp [hne]
      rw [hnobody, zero]
      rcases k with _ | _ | _ | _ | _ | _ | _ <;> rfl
  next => exact h b s k hs

/-! ### By activity and lineage alone -/

/-- The counters of a record are the counts of all generations. -/
theorem Counted.generations_eq (h : Counted m) (full : Full m) (found : m.get? a = some r) :
    r.generations.map UInt64.toNat = (List.range generationCount).map (activeAt m a) := by
  refine List.ext_getElem? fun g => ?_
  rw [List.getElem?_map, List.getElem?_map]
  by_cases hg : g < generationCount
  · rw [List.getElem?_range hg]
    have hlt : g < r.generations.length := by rwa [full a r found]
    rw [List.getElem?_eq_getElem hlt, Option.map_some, Option.map_some]
    exact congrArg some (h a r g _ found (List.getElem?_eq_getElem hlt))
  · rw [List.getElem?_eq_none (by rw [full a r found]; omega),
      List.getElem?_eq_none (by rw [List.length_range]; omega)]
    rfl

/-- The size of a team by the counters is its size by recount. -/
theorem Counted.activeTeamSize_eq (h : Counted m) (full : Full m) (found : m.get? a = some r) :
    r.activeTeamSize = activeTeam m a := by
  have hmap := h.generations_eq full found
  rw [Record.activeTeamSize, Record.activeBetween, List.map_take, List.map_drop, hmap, activeTeam,
    ← List.map_drop, ← List.map_take]
  rfl

/-- **The tallies are those of activity and lineage alone.** -/
theorem Tallied.tally_eq (h : Tallied m) (counted : Counted m) (full : Full m)
    (found : m.get? a = some r) (k : TallyKind) : (r.tallies.get k).toInt = tally m a k := by
  have hline : ∀ b, childrenFor m b .firstLine = activeChildren m b fun _ => true := by
    intro b
    rw [childrenFor, activeChildren]
    exact SortedMap.count_congr fun _ s _ => by simp [Record.countsFor]
  rw [h a r k found, Int.natCast_inj]
  cases k with
  | firstLine => exact hline a
  | byThree =>
      rw [childrenFor, tally, activeChildren]
      refine SortedMap.count_congr fun b s hs => ?_
      have hthree : (ReferralForest.byThree : Int) ≤ s.tallies.firstLine.toInt ↔
          ReferralForest.byThree ≤ activeChildren m b fun _ => true := by
        rw [← hline b]
        have := h b s .firstLine hs
        rw [Tallies.get] at this
        omega
      simp only [Record.countsFor, hthree, Bool.and_right_comm]
  | team size =>
      rw [childrenFor, tally, activeChildren]
      refine SortedMap.count_congr fun b s hs => ?_
      simp only [Record.countsFor, counted.activeTeamSize_eq full hs, Bool.and_right_comm]

end Roster

end ReferralForest

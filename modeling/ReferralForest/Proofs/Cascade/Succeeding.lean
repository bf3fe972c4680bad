import ReferralForest.Proofs.Cascade.Rising

/-!
# When Cascades Go Through

A cascade fails where a quantity leaves its range: a stake, a count, or the time of a notice. Taken
apart, each of its changes goes through if the new value is in range, and a status check goes through
unless it has to put an account on notice for a time that cannot be told.

## Main definitions

* `Record.Held` — a record that is not scheduled meets the requirement of its tier.
* `Ledger.Checkable` — every record can be checked as of some times, also once its measures have risen.

## Main statements

* `Cascade.exists_yields_update` — an update goes through if its change and its check do.
* `Cascade.exists_shiftChild?`, `Cascade.exists_moveTeam?` — counts move if the new counts fit.
* `Cascade.yields_setActive_of_spread`, `Cascade.yields_countGenerations_of_corrects` — phases that go
  through, put together.
-/

namespace ReferralForest

/-! ### Counts that fit -/

/-- Whether a number is in the range of eight signed bytes. -/
def FitsInt64 (n : Int) : Prop := Int64.minValue.toInt ≤ n ∧ n ≤ Int64.maxValue.toInt

/-- A count is moved if the result fits. -/
theorem exists_countShift? {n : Int64} {delta : Int} (fits : FitsInt64 (n.toInt + delta)) :
    ∃ n', countShift? n delta = some n' :=
  ⟨_, if_pos fits⟩

/-- A counter is moved if the result fits and is not negative. -/
theorem exists_counterShift? {n : UInt64} {delta : Int} (least : 0 ≤ (n.toNat : Int) + delta)
    (fits : (n.toNat : Int) + delta < UInt64.size) : ∃ n', counterShift? n delta = some n' :=
  ⟨_, if_pos ⟨least, fits⟩⟩

namespace Tallies

variable {t : Tallies} {delta : Int} {size before after : Nat}

/-- A size class is moved if its count fits afterwards. -/
theorem exists_shiftTeam?
    (fits : FitsInt64 ((t.get (.team (.ofSize size))).toInt + delta)) :
    ∃ t', t.shiftTeam? size delta = some t' := by
  simp only [TeamClass.ofSize] at fits
  simp only [shiftTeam?]
  split_ifs at fits ⊢ <;>
  · obtain ⟨n, hn⟩ := exists_countShift? fits
    exact ⟨_, Option.map_eq_some_iff.mpr ⟨n, hn, rfl⟩⟩

/-- The count of the first line is moved if it fits afterwards. -/
theorem exists_shiftFirstLine? (fits : FitsInt64 ((t.get .firstLine).toInt + delta)) :
    ∃ t', t.shiftFirstLine? delta = some t' := by
  obtain ⟨n, hn⟩ := exists_countShift? fits
  exact ⟨_, Option.map_eq_some_iff.mpr ⟨n, hn, rfl⟩⟩

/-- The count by three is moved if it fits afterwards. -/
theorem exists_shiftByThree? (fits : FitsInt64 ((t.get .byThree).toInt + delta)) :
    ∃ t', t.shiftByThree? delta = some t' := by
  obtain ⟨n, hn⟩ := exists_countShift? fits
  exact ⟨_, Option.map_eq_some_iff.mpr ⟨n, hn, rfl⟩⟩

/-- **A child counts in or out** if the counts of all kinds it counts for fit afterwards. -/
theorem exists_shiftChild? {three : Bool}
    (fits : ∀ k, FitsInt64 ((t.get k).toInt +
      if k = .firstLine ∨ k = .byThree ∧ three = true ∨ k = .team (.ofSize size) then delta else 0)) :
    ∃ t', t.shiftChild? size three delta = some t' := by
  have hteam := fits (.team (.ofSize size))
  rw [if_pos (.inr (.inr rfl))] at hteam
  obtain ⟨t₁, h₁⟩ := exists_shiftTeam? hteam
  have hline₁ : (t₁.get .firstLine).toInt = (t.get .firstLine).toInt := by
    simpa using get_of_shiftTeam? h₁ .firstLine
  have hline := fits .firstLine
  rw [if_pos (.inl rfl), ← hline₁] at hline
  obtain ⟨t₂, h₂⟩ := exists_shiftFirstLine? hline
  cases three with
  | false => exact ⟨t₂, by simp [shiftChild?, h₁, h₂]⟩
  | true =>
      have hthree₁ : (t₁.get .byThree).toInt = (t.get .byThree).toInt := by
        simpa using get_of_shiftTeam? h₁ .byThree
      have hthree₂ : (t₂.get .byThree).toInt = (t₁.get .byThree).toInt := by
        simpa using get_of_shiftFirstLine? h₂ .byThree
      have hthree := fits .byThree
      rw [if_pos (.inr (.inl ⟨rfl, rfl⟩)), ← hthree₁, ← hthree₂] at hthree
      obtain ⟨t₃, h₃⟩ := exists_shiftByThree? hthree
      exact ⟨t₃, by simp [shiftChild?, h₁, h₂, h₃]⟩

/-- **A team moves between classes** if there is a team to be moved and the counts fit afterwards. -/
theorem exists_moveTeam? (least : 0 ≤ (t.get (.team (.ofSize before))).toInt)
    (fits : ∀ k, FitsInt64 ((t.get k).toInt +
      ((if k = .team (.ofSize after) then 1 else 0) -
        (if k = .team (.ofSize before) then 1 else 0)))) :
    ∃ t', t.moveTeam? before after = some t' := by
  have hout : FitsInt64 ((t.get (.team (.ofSize before))).toInt + -1) := by
    have hmin : Int64.minValue.toInt = -2 ^ 63 := by decide
    have hmax := Int64.toInt_le (t.get (.team (.ofSize before)))
    have hmaxValue : Int64.maxValue.toInt = 2 ^ 63 - 1 := by decide
    rw [FitsInt64]
    omega
  obtain ⟨t₁, h₁⟩ := exists_shiftTeam? hout
  have hin : FitsInt64 ((t₁.get (.team (.ofSize after))).toInt + 1) := by
    have hshift := get_of_shiftTeam? h₁ (.team (.ofSize after))
    have hafter := fits (.team (.ofSize after))
    rw [if_pos rfl] at hafter
    rw [hshift]
    convert hafter using 1
    split_ifs <;> omega
  obtain ⟨t₂, h₂⟩ := exists_shiftTeam? hin
  exact ⟨t₂, by simp [moveTeam?, h₁, h₂]⟩

end Tallies

/-- **A generation counter moves** if what is to be counted fits. -/
theorem Record.exists_shiftGeneration? {r : Record} {generation count : Nat} {delta : Int}
    {counter : UInt64} (old : r.generations[generation]? = some counter)
    (counts : (counter.toNat : Int) + delta = count) (fits : count < UInt64.size) :
    ∃ moved, r.shiftGeneration? generation delta =
      some { r with generations := r.generations.set generation moved } := by
  have hfits : (count : Int) < UInt64.size := Int.ofNat_lt.mpr fits
  rw [← counts] at hfits
  obtain ⟨moved, hmoved⟩ := exists_counterShift? (counts ▸ Int.natCast_nonneg count) hfits
  refine ⟨moved, ?_⟩
  rw [shiftGeneration?, old]
  simp only [Option.bind_eq_bind, Option.bind_some, hmoved]
  rfl

namespace Roster

variable {m : Roster} {a x : AccountId} {r : Record} {delta : Int} {level : Nat}

/-- **The generation to which a flip is owed** moves, if there is room for the accounts active there. -/
theorem CountedFrom.exists_shift (h : CountedFrom m x delta level) (found : m.get? a = some r)
    (reached : ancestor? m level x = some a) (counts : level < r.generations.length)
    (room : activeAt m a level < UInt64.size) : ∃ moved, r.shiftGeneration? level delta =
      some { r with generations := r.generations.set level moved } := by
  have hcounter := List.getElem?_eq_getElem counts
  have hcount := h a r level _ found hcounter
  rw [if_pos ⟨Nat.le_refl level, reached⟩] at hcount
  exact Record.exists_shiftGeneration? hcounter hcount room

/-- **The own generation of an account that is flipped** moves, if there is room for the accounts active
there. -/
theorem Recounted.exists_shift (h : Recounted m) (found : m.get? a = some r) {active : Bool}
    (flips : r.active ≠ active)
    (room : activeAt (m.insert a { r with active }) a 0 < UInt64.size) : ∃ moved,
      { r with active }.shiftGeneration? 0 (Cascade.flipSign active) =
        some { r with active, generations := r.generations.set 0 moved } := by
  have hlength : 0 < r.generations.length := by
    rw [h.full a r found]
    decide
  exact (h.counted.flip found flips).exists_shift (SortedMap.get?_insert_self _ _ _) ancestor?_zero
    hlength room

end Roster

/-! ### Status checks -/

/-- A record that is not scheduled meets the requirement of its tier. -/
def Record.Held (r : Record) : Prop := r.downgradeAt = none → r.status.metBy r = true

/-- A record that has climbed is held. -/
theorem Record.Climbed.held {r : Record} (h : r.Climbed) : r.Held := h.met

/-- Whether the time of a notice given now can be told. -/
def Ledger.Timely (L : Ledger) (now : Timestamp) : Prop :=
  ∃ t, now.add? (L.params.getD .default).gracePeriod = some t

/-- **Every record can be checked** as of some times, also once its measures have risen: the times of
the notices can be told, or no notice will be given. -/
def Ledger.Checkable (L : Ledger) (times : Set Timestamp) : Prop :=
  (∀ now ∈ times, L.Timely now) ∨ ∀ a r, L.records.get? a = some r → r.Held

/-- A record whose measures rise stays held. -/
theorem Record.Held.rise {r r' : Record} (h : r.Held) (le : r.MeasuresLe r')
    (status : r'.status = r.status) (downgradeAt : r'.downgradeAt = r.downgradeAt) : r'.Held := by
  intro hnone
  rw [status]
  exact Status.metBy_mono le (h (downgradeAt ▸ hnone))

namespace Cascade

variable {β : Type} {D D₁ D' : Draft} {now : Timestamp} {a : AccountId} {r r₁ : Record}
  {checkAt : Option Timestamp}

/-- **A status check goes through** if no notice is to be given or its time can be told. -/
theorem exists_yields_refresh (h : D.Timely now ∨ r.Held) :
    ∃ r' D', (refresh now a r).Yields D r' D' := by
  cases hmet : r.status.metBy r with
  | true =>
      cases hr : r.downgradeAt with
      | none => exact ⟨_, _, yields_refresh.mpr (.met hmet hr)⟩
      | some t => exact ⟨_, _, yields_refresh.mpr (.canceled hmet hr)⟩
  | false =>
      cases hr : r.downgradeAt with
      | some t => exact ⟨_, _, yields_refresh.mpr (.waiting hmet hr)⟩
      | none =>
          obtain ⟨t, ht⟩ := h.resolve_right fun held => by simp [held hr] at hmet
          exact ⟨_, _, yields_refresh.mpr (.failing hmet hr ht)⟩

/-- An update of an account without a record does nothing. -/
theorem yields_update_of_none {change : Record → Cascade (β × Record)}
    (missing : D.records.get? a = none) : (update checkAt a change).Yields D none D := by
  have hload : Yields ((load a).mapError (Error.inUpdate a .load)) D none D := by
    rw [yields_mapError, yields_load]
    exact ⟨missing.symm, rfl⟩
  rw [update]
  exact yields_bind.mpr ⟨none, D, hload, yields_done.mpr ⟨rfl, rfl⟩⟩

section Found

variable {change : Record → Cascade (β × Record)} {b : β} (padded : Roster.Padded D.records)
  (found : D.records.get? a = some r) (changes : (change r).Yields D (b, r₁) D₁)
include padded found changes

/-- The first half of an update: the record is found and changed. -/
theorem yields_load_change :
    Yields ((load a).mapError (Error.inUpdate a .load)) D (some r) D ∧
      Yields ((change r.normalize).mapError (Error.inUpdate a .mutate)) D (b, r₁) D₁ := by
  rw [yields_mapError, yields_mapError, yields_load, Record.normalize_of_length (padded a r found)]
  exact ⟨⟨found.symm, rfl⟩, changes⟩

/-- **An update without a check** puts the record as it is changed. -/
theorem yields_update_unchecked :
    (update none a change).Yields D (some b) (D₁.withLedger (D₁.toLedger.put a r₁)) := by
  obtain ⟨hload, hchange⟩ := yields_load_change padded found changes
  rw [update]
  exact yields_bind.mpr ⟨some r, D, hload, yields_bind.mpr ⟨(b, r₁), D₁, hchange,
    yields_bind.mpr ⟨r₁, D₁, yields_done.mpr ⟨rfl, rfl⟩,
      yields_bind.mpr ⟨(), _, yields_put.mpr rfl, yields_done.mpr ⟨rfl, rfl⟩⟩⟩⟩⟩

/-- **An update goes through** if its change and its check do. -/
theorem exists_yields_update (checks : ∀ now, checkAt = some now → D₁.Timely now ∨ r₁.Held) :
    ∃ D', (update checkAt a change).Yields D (some b) D' := by
  cases checkAt with
  | none => exact ⟨_, yields_update_unchecked padded found changes⟩
  | some now =>
      obtain ⟨hload, hchange⟩ := yields_load_change padded found changes
      obtain ⟨r₂, D₂, hrefresh⟩ := exists_yields_refresh (a := a) (checks now rfl)
      rw [update]
      exact ⟨_, yields_bind.mpr ⟨some r, D, hload, yields_bind.mpr ⟨(b, r₁), D₁, hchange,
        yields_bind.mpr ⟨r₂, D₂, yields_mapError.mpr hrefresh,
          yields_bind.mpr ⟨(), _, yields_put.mpr rfl, yields_done.mpr ⟨rfl, rfl⟩⟩⟩⟩⟩⟩

end Found

/-! ### Phases put together -/

/-- An event announced on a condition makes a difference only to what is announced. -/
theorem exists_yields_announce_if (p : Prop) [Decidable p] (a : AccountId) (event : Event) (D : Draft) :
    ∃ D₁ : Draft, D₁.toLedger = D.toLedger ∧
      ∀ (rest : Unit → Cascade β) b D', (rest ()).Yields D₁ b D' →
        Yields (if p then announce a event >>= rest else rest ()) D b D' := by
  by_cases hp : p
  · refine ⟨D.announce ⟨a, event⟩, rfl, fun rest b D' hrest => ?_⟩
    rw [if_pos hp]
    exact yields_bind.mpr ⟨(), _, yields_announce.mpr rfl, hrest⟩
  · refine ⟨D, rfl, fun rest b D' hrest => ?_⟩
    rw [if_neg hp]
    exact hrest

/-- The phases of a stake change after the account's own record, put together. -/
theorem exists_yields_changeStake {delta : Int} (bound : Nat) {flip : Option Bool}
    {parent : Option AccountId}
    (self : (update (some now) a (addSelfStake delta)).Yields D (some (flip, parent)) D₁) :
    ∃ D₂ : Draft, D₂.toLedger = D₁.toLedger ∧ ∀ D₃ D',
      (raiseTeams now delta bound parent).Yields D₂ () D₃ →
      (flip = none ∧ D' = D₃ ∨ ∃ active, flip = some active ∧
        (setActive (some now) a active).Yields D₃ () D') →
      (changeStake now a delta bound).Yields D () D' := by
  obtain ⟨D₂, hD₂, hannounced⟩ := exists_yields_announce_if (delta ≠ 0) a .stakeChanged D₁
  refine ⟨D₂, hD₂, fun D₃ D' hraise hflip => ?_⟩
  refine yields_bind.mpr ⟨_, D₁, self, hannounced _ () D' (yields_bind.mpr ⟨(), D₃, hraise, ?_⟩)⟩
  obtain ⟨rfl, rfl⟩ | ⟨active, rfl, hactive⟩ := hflip
  · exact yields_done.mpr ⟨rfl, rfl⟩
  · exact hactive

/-- A level of the walk over the generations, its correction and the levels above, put together. -/
theorem yields_countGenerations_of_corrects {delta : Int} {levels generation : Nat}
    {ancestor : AccountId} {stride : Stride} {D₂ : Draft} {u : Unit}
    (count : (update checkAt ancestor (countDescendant generation delta)).Yields D (some stride) D₁)
    (corrects : stride.Corrects checkAt D₁ D₂)
    (climb : (countGenerations checkAt delta levels (generation + 1) stride.next).Yields D₂ u D') :
    (countGenerations checkAt delta (levels + 1) generation (some ancestor)).Yields D u D' := by
  rw [countGenerations]
  refine yields_bind.mpr ⟨some stride, D₁, count, ?_⟩
  obtain ⟨_ | next, _ | ⟨before, after⟩⟩ := stride
  case some.some =>
      obtain ⟨v, hmove⟩ := corrects
      exact yields_bind.mpr ⟨v, D₂, hmove, climb⟩
  all_goals
    obtain rfl : D₂ = D₁ := corrects
    exact climb

/-- The walk over the generations ends at an ancestor without a record. -/
theorem yields_countGenerations_of_none {delta : Int} {levels generation : Nat}
    {ancestor : AccountId}
    (count : (update checkAt ancestor (countDescendant generation delta)).Yields D none D₁) :
    (countGenerations checkAt delta (levels + 1) generation (some ancestor)).Yields D () D₁ := by
  rw [countGenerations]
  exact yields_bind.mpr ⟨none, D₁, count, yields_done.mpr ⟨rfl, rfl⟩⟩

/-- The flip of a root is all there is to its becoming active. -/
theorem yields_setActive_of_root {active : Bool} {child : Flip}
    (flip : (update none a (flipRecord active (flipSign active))).Yields D (some (some child)) D')
    (root : child.parent = none) : (setActive checkAt a active).Yields D () D' := by
  rw [setActive]
  refine yields_bind.mpr ⟨some (some child), D', flip, ?_⟩
  dsimp only [Option.join_some]
  rw [root]
  exact yields_done.mpr ⟨rfl, rfl⟩

/-- The flip of an account and the phases above it, put together. -/
theorem yields_setActive_of_spread {active : Bool} {child : Flip} {parent : AccountId}
    (flip : (update none a (flipRecord active (flipSign active))).Yields D (some (some child)) D₁)
    (placed : child.parent = some parent) (spread : Spread checkAt active child parent D₁ D') :
    (setActive checkAt a active).Yields D () D' := by
  rw [setActive]
  refine yields_bind.mpr ⟨some (some child), D₁, flip, ?_⟩
  dsimp only [Option.join_some]
  rw [placed]
  obtain ⟨hcount, hripple, hclimb⟩ := spread
  next D₂ D₃ crossed u =>
    refine yields_bind.mpr ⟨crossed, D₂, hcount, ?_⟩
    cases hcrossed : crossed.join with
    | none =>
        rw [hcrossed] at hripple
        obtain rfl : D₃ = D₂ := hripple
        exact hclimb
    | some grandparent =>
        rw [hcrossed] at hripple
        obtain ⟨v, hupdate⟩ := hripple
        exact yields_bind.mpr ⟨v, D₃, hupdate, hclimb⟩

end Cascade

end ReferralForest

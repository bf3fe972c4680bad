import ReferralForest.Proofs.Cascade.Reversing

/-!
# The Activity Cascade as Messages

The cascade of an account that becomes active or ceases to be, without status checks, is a flip: it puts the
records to which the messages lead, and it goes through wherever they do.

The cascade tells the grandparent about the count of three before the parent counts its generation, and
about the parent's team after that. The two accounts are different, so both messages can be told at once.

## Main statements

* `Cascade.relays_of_countGenerations`, `Cascade.exists_yields_of_relays` — the walk over the generations
  is a chain of messages.
* `Cascade.toggles_of_setActive`, `Cascade.exists_setActive_of_toggles` — the cascade is a flip.
-/

namespace ReferralForest

namespace Cascade

open Roster

variable {β : Type} {D D' : Draft} {a : AccountId} {x : Option AccountId} {m m₁ m' : Roster}
  {r r' : Record} {told : Tallies → Option Tallies} {active : Bool} {delta : Int}
  {levels generation : Nat}

/-- **What an update without a check does to the records**, if its change does nothing else. -/
theorem records_of_unchecked {change : Record → Cascade (β × Record)} {result : Option β}
    (padded : Padded D.records) (still : ∀ r b r' D₁, (change r).Yields D (b, r') D₁ → D₁ = D)
    (h : (update none a change).Yields D result D') :
    (D.records.get? a = none ∧ result = none ∧ D' = D) ∨
      ∃ r b r', D.records.get? a = some r ∧ (change r).Yields D (b, r') D ∧ result = some b ∧
        D'.records = D.records.insert a r' := by
  obtain hnone | ⟨r, b, r₁, D₁, r₂, D₂, hr, hchange, hcheck, hresult, rfl⟩ := steps_of_yields_update h
  · exact .inl hnone
  · rw [Record.normalize_of_length (padded a r hr)] at hchange
    obtain rfl := still r b r₁ D₁ hchange
    obtain ⟨rfl, rfl⟩ := yields_done.mp hcheck
    exact .inr ⟨r, b, r₂, hr, hchange, hresult, rfl⟩

section Told

variable {change : Record → Cascade (Unit × Record)} (padded : Padded D.records)
include padded

/-- A change of tallies is a message. -/
theorem tells_of_yields_update {v : Option Unit}
    (changes : ∀ r b r' D₁, (change r).Yields D (b, r') D₁ →
      D₁ = D ∧ ∃ t, told r.tallies = some t ∧ r' = { r with tallies := t })
    (h : (update none a change).Yields D v D') : Tells told (some a) D.records D'.records := by
  obtain ⟨hnone, -, rfl⟩ | ⟨r, b, r', hr, hchange, -, hrecords⟩ :=
    records_of_unchecked padded (fun r b r' D₁ h => (changes r b r' D₁ h).1) h
  · exact .missing hnone
  · obtain ⟨-, t, ht, rfl⟩ := changes r b r' D hchange
    rw [hrecords]
    exact .found hr ht

/-- A message is a change of tallies. -/
theorem exists_yields_of_tells
    (changes : ∀ r t, told r.tallies = some t → (change r).Yields D ((), { r with tallies := t }) D)
    (h : Tells told (some a) D.records m') :
    ∃ v D', (update none a change).Yields D v D' ∧ D'.records = m' := by
  cases h with
  | missing hm => exact ⟨none, D, yields_update_of_none hm, rfl⟩
  | found hm hheard =>
      exact ⟨some (), _, yields_update_unchecked padded hm (changes _ _ hheard), rfl⟩

end Told

/-- A ripple is what a parent tells. -/
theorem tells_of_ripples (padded : Padded D.records)
    (h : Ripples none active (if r'.crosses active then x else none) D D') :
    Tells (r'.tellsThree active) x D.records D'.records := by
  cases hcrosses : r'.crosses active with
  | false =>
      rw [hcrosses] at h
      obtain rfl : D' = D := h
      rw [Record.tellsThree_of_stays hcrosses]
      exact .still x D'.records
  | true =>
      rw [hcrosses, if_pos rfl] at h
      rw [Record.tellsThree_of_crosses hcrosses]
      cases x with
      | none =>
          obtain rfl : D' = D := h
          exact .nobody
      | some q =>
          obtain ⟨v, hupdate⟩ := h
          exact tells_of_yields_update padded (fun _ _ _ _ => yields_countByThree) hupdate

/-- What a parent tells is a ripple. -/
theorem exists_ripples_of_tells (padded : Padded D.records)
    (h : Tells (r'.tellsThree active) x D.records m') :
    ∃ D', Ripples none active (if r'.crosses active then x else none) D D' ∧ D'.records = m' := by
  cases hcrosses : r'.crosses active with
  | false =>
      rw [Record.tellsThree_of_stays hcrosses] at h
      exact ⟨D, rfl, h.eq_of_still.symm⟩
  | true =>
      rw [Record.tellsThree_of_crosses hcrosses] at h
      rw [if_pos rfl]
      cases x with
      | none =>
          cases h
          exact ⟨D, rfl, rfl⟩
      | some q =>
          obtain ⟨v, D', hupdate, hD'⟩ := exists_yields_of_tells padded (fun r t ht =>
            yields_bind.mpr ⟨t, D, yields_checked.mpr ⟨ht, rfl⟩, yields_done.mpr ⟨rfl, rfl⟩⟩) h
          exact ⟨D', ⟨v, hupdate⟩, hD'⟩

/-- The stride after an account whose record changes. -/
def strideOf (x : Option AccountId) (r r' : Record) : Stride :=
  ⟨x, if r'.active ∧ r.activeTeamSize ≠ r'.activeTeamSize then
    some (r.activeTeamSize, r'.activeTeamSize) else none⟩

/-- The correction after a stride is what the account tells about its team. -/
theorem tells_of_corrects (padded : Padded D.records)
    (h : (strideOf x r r').Corrects none D D') : Tells (r.tellsTeam r') x D.records D'.records := by
  by_cases hmoves : r'.active ∧ r.activeTeamSize ≠ r'.activeTeamSize
  · rw [strideOf, if_pos hmoves] at h
    rw [Record.tellsTeam_of_moves hmoves]
    cases x with
    | none =>
        obtain rfl : D' = D := h
        exact .nobody
    | some q =>
        obtain ⟨v, hupdate⟩ := h
        exact tells_of_yields_update padded (fun _ _ _ _ => yields_reclassify) hupdate
  · rw [strideOf, if_neg hmoves] at h
    have hsame : D' = D := by cases x <;> exact h
    rw [Record.tellsTeam_of_stays hmoves, hsame]
    exact .still x D.records

/-- What an account tells about its team is the correction after a stride. -/
theorem exists_corrects_of_tells (padded : Padded D.records)
    (h : Tells (r.tellsTeam r') x D.records m') :
    ∃ D', (strideOf x r r').Corrects none D D' ∧ D'.records = m' := by
  by_cases hmoves : r'.active ∧ r.activeTeamSize ≠ r'.activeTeamSize
  · rw [Record.tellsTeam_of_moves hmoves] at h
    rw [strideOf, if_pos hmoves]
    cases x with
    | none =>
        cases h
        exact ⟨D, rfl, rfl⟩
    | some q =>
        obtain ⟨v, D', hupdate, hD'⟩ := exists_yields_of_tells padded (fun r t ht =>
          yields_bind.mpr ⟨t, D, yields_checked.mpr ⟨ht, rfl⟩, yields_done.mpr ⟨rfl, rfl⟩⟩) h
        exact ⟨D', ⟨v, hupdate⟩, hD'⟩
  · rw [Record.tellsTeam_of_stays hmoves] at h
    rw [strideOf, if_neg hmoves]
    exact ⟨D, by cases x <;> rfl, h.eq_of_still.symm⟩

/-- What counting a descendant does to the records. -/
theorem records_of_countDescendant {result : Option Stride} (padded : Padded D.records)
    (h : (update none a (countDescendant generation delta)).Yields D result D') :
    (D.records.get? a = none ∧ result = none ∧ D' = D) ∨
      ∃ r r', D.records.get? a = some r ∧ r.shiftGeneration? generation delta = some r' ∧
        result = some (strideOf r'.referrer r r') ∧ D'.records = D.records.insert a r' := by
  obtain hnone | ⟨r, b, r', hr, hchange, rfl, hrecords⟩ :=
    records_of_unchecked padded (fun _ _ _ _ h => (yields_countDescendant h).1) h
  · exact .inl hnone
  · obtain ⟨-, hcounted, rfl⟩ := yields_countDescendant hchange
    exact .inr ⟨r, r', hr, hcounted, rfl, hrecords⟩

/-- The walk over the generations ends at an ancestor without a record. -/
theorem eq_of_countGenerations {u : Unit} (padded : Padded D.records) (missing : D.records.get? a = none)
    (h : (countGenerations none delta (levels + 1) generation (some a)).Yields D u D') : D' = D := by
  obtain ⟨result, D₁, hcount, hrest⟩ := yields_countGenerations_succ h
  obtain ⟨-, rfl, rfl⟩ | ⟨r, r', hr, -⟩ := records_of_countDescendant padded hcount
  · obtain ⟨-, rfl⟩ | ⟨stride, D₂, hstride, -⟩ := hrest
    · rfl
    · contradiction
  · rw [missing] at hr
    contradiction

section Level

variable (whole : Whole D.records) (found : D.records.get? a = some r)
include whole found

/-- **A level of the walk over the generations**: the ancestor counts and tells the next one about its
team. -/
theorem level_of_countGenerations {u : Unit}
    (h : (countGenerations none delta (levels + 1) generation (some a)).Yields D u D') :
    ∃ r' D₂, r.shiftGeneration? generation delta = some r' ∧ Whole D₂.records ∧
      Tells (r.tellsTeam r') r.referrer (D.records.insert a r') D₂.records ∧
      (countGenerations none delta levels (generation + 1) r.referrer).Yields D₂ u D' := by
  obtain ⟨result, D₁, hcount, hrest⟩ := yields_countGenerations_succ h
  obtain ⟨hnone, -⟩ | ⟨r₁, r', hr₁, counted, rfl, hrecords⟩ :=
    records_of_countDescendant whole.padded hcount
  · rw [found] at hnone
    contradiction
  · obtain rfl := Option.some.inj (found.symm.trans hr₁)
    obtain ⟨hreferrer, -, -, hlength⟩ := same_of_shiftGeneration? counted
    obtain ⟨hstop, -⟩ | ⟨stride, D₂, hstride, hcorrects, hclimb⟩ := hrest
    · contradiction
    · obtain rfl := Option.some.inj hstride
      have hwhole : Whole D₁.records := hrecords ▸ whole.insert ((whole _ _ found).congr hlength)
      have htells := tells_of_corrects hwhole.padded hcorrects
      refine ⟨r', D₂, counted, htells.whole hwhole, ?_, hreferrer ▸ hclimb⟩
      rwa [hrecords, hreferrer] at htells

/-- A level of the walk over the generations, and the levels above, put together. -/
theorem exists_level_of_tells {r' : Record} (counted : r.shiftGeneration? generation delta = some r')
    (tells : Tells (r.tellsTeam r') r.referrer (D.records.insert a r') m₁) :
    ∃ D₂ : Draft, D₂.records = m₁ ∧ ∀ D',
      (countGenerations none delta levels (generation + 1) r.referrer).Yields D₂ () D' →
      (countGenerations none delta (levels + 1) generation (some a)).Yields D () D' := by
  obtain ⟨hreferrer, -, -, hlength⟩ := same_of_shiftGeneration? counted
  let D₁ := D.withLedger (D.toLedger.put a r')
  have hwhole : Whole D₁.records := whole.insert ((whole _ _ found).congr hlength)
  have hcount : (update none a (countDescendant generation delta)).Yields D
      (some (strideOf r'.referrer r r')) D₁ :=
    yields_update_unchecked whole.padded found (yields_bind.mpr
      ⟨r', D, yields_checked.mpr ⟨counted, rfl⟩, yields_done.mpr ⟨rfl, rfl⟩⟩)
  rw [← hreferrer] at tells ⊢
  obtain ⟨D₂, hcorrects, hD₂⟩ := exists_corrects_of_tells hwhole.padded tells
  exact ⟨D₂, hD₂, fun D' => yields_countGenerations_of_corrects hcount hcorrects⟩

end Level

/-- What is told and then nothing is what is told. -/
theorem relays_still_iff (r r' : Record) (above : generation ≠ 1) :
    Relays active levels (generation + 1) (r.tells active generation r') x m m' ↔
      ∃ m₁, Tells (r.tellsTeam r') x m m₁ ∧ Relays active levels (generation + 1) some x m₁ m' := by
  rw [← Relays.bind_iff, Record.tells_of_ne above]
  simp only [Option.bind_fun_some]

/-- **The walk over the generations is a chain of messages** above the parent, of which the first says
nothing. -/
theorem relays_of_countGenerations {u : Unit} (whole : Whole D.records) (above : 1 < generation)
    (h : (countGenerations none (flipSign active) levels generation x).Yields D u D') :
    Relays active levels generation some x D.records D'.records := by
  induction levels generalizing x D generation with
  | zero =>
      obtain ⟨-, rfl⟩ := yields_done.mp h
      exact .last (.still x D'.records)
  | succ levels ih =>
      cases x with
      | none =>
          obtain ⟨-, rfl⟩ := yields_done.mp h
          exact .nobody
      | some a =>
          cases hr : D.records.get? a with
          | none =>
              rw [eq_of_countGenerations whole.padded hr h]
              exact .missing hr
          | some r =>
              obtain ⟨r', D₂, counted, hwhole, htells, hclimb⟩ := level_of_countGenerations whole hr h
              refine .next hr rfl counted ((relays_still_iff r r' above.ne').mpr ⟨_, htells, ?_⟩)
              exact ih hwhole (Nat.lt_succ_of_lt above) hclimb

/-- **A chain of messages above the parent is a walk over the generations**, if the first one says
nothing. -/
theorem exists_yields_of_relays (whole : Whole D.records) (above : 1 < generation)
    (h : Relays active levels generation some x D.records m') :
    ∃ D', (countGenerations none (flipSign active) levels generation x).Yields D () D' ∧
      D'.records = m' := by
  induction levels generalizing x D generation with
  | zero =>
      cases h with
      | last tells => exact ⟨D, yields_done.mpr ⟨rfl, rfl⟩, tells.eq_of_still.symm⟩
  | succ levels ih =>
      cases h with
      | nobody => exact ⟨D, yields_done.mpr ⟨rfl, rfl⟩, rfl⟩
      | missing hnone =>
          exact ⟨D, yields_countGenerations_of_none (yields_update_of_none hnone), rfl⟩
      | next found heard counted rest =>
          next a r r' t =>
            obtain rfl := Option.some.inj heard
            obtain ⟨-, -, -, hlength⟩ := same_of_shiftGeneration? counted
            obtain ⟨m₁, htells, hrest⟩ := (relays_still_iff r r' above.ne').mp rest
            obtain ⟨D₂, rfl, hlevel⟩ := exists_level_of_tells whole found counted htells
            have hwhole := htells.whole (whole.insert ((whole _ _ found).congr hlength))
            obtain ⟨D', hclimb, hD'⟩ := ih hwhole (Nat.lt_succ_of_lt above) hrest
            exact ⟨D', hlevel D' hclimb, hD'⟩

/-- What counting a flipped child does to the records. -/
theorem records_of_countChild {child : Flip} {crossed : Option (Option AccountId)}
    (padded : Padded D.records)
    (h : (update none a (countChild child active delta)).Yields D crossed D') :
    (D.records.get? a = none ∧ crossed = none ∧ D' = D) ∨
      ∃ s t, D.records.get? a = some s ∧
        s.tallies.shiftChild? child.teamSize child.hasThree delta = some t ∧
        crossed = some (if { s with tallies := t }.crosses active then s.referrer else none) ∧
        D'.records = D.records.insert a { s with tallies := t } := by
  obtain hnone | ⟨s, b, s', hs, hchange, rfl, hrecords⟩ :=
    records_of_unchecked padded (fun _ _ _ _ h => (yields_countChild h).1) h
  · exact .inl hnone
  · obtain ⟨-, t, ht, rfl, rfl⟩ := yields_countChild hchange
    exact .inr ⟨s, t, hs, ht, rfl, hrecords⟩

/-- **What spreads above an account is a chain of messages**, of which the first counts a child of the
parent. The parent may count its generation before it tells of the count of three. -/
theorem relays_of_spread {child : Flip} {p : AccountId} (whole : Whole D.records)
    (other : parentOf D.records p ≠ some p) (h : Spread none active child p D D') :
    Relays active maxDepth 1 (Tallies.shiftChild? child.teamSize child.hasThree (flipSign active))
      (some p) D.records D'.records := by
  obtain ⟨hcount, hripple, hclimb⟩ := h
  next D₁ D₂ crossed u =>
    obtain ⟨hnone, rfl, rfl⟩ | ⟨s, t, found, heard, rfl, hrecords⟩ :=
      records_of_countChild whole.padded hcount
    · obtain rfl : D₂ = D₁ := hripple
      rw [eq_of_countGenerations whole.padded hnone hclimb]
      exact .missing hnone
    · rw [parentOf_of_get? found] at other
      have hwhole₁ : Whole D₁.records := hrecords ▸ whole.insert ((whole _ _ found).congr rfl)
      have hthree := tells_of_ripples hwhole₁.padded hripple
      have hself : D₂.records.get? p = some { s with tallies := t } := by
        rw [hthree.get?_eq other, hrecords, SortedMap.get?_insert_self]
      obtain ⟨s', D₄, counted, hwhole₄, hteam, hrest⟩ :=
        level_of_countGenerations (hthree.whole hwhole₁) hself hclimb
      obtain ⟨-, hactive, htallies, -⟩ := same_of_shiftGeneration? counted
      have hearly := hthree.insert other s'
      rw [hrecords, SortedMap.insert_insert, ← Record.tellsThree_congr hactive htallies] at hearly
      have hboth := Tells.bind_iff.mpr ⟨_, hearly, hteam⟩
      have habove := Relays.bind_iff.mpr
        ⟨_, hboth, relays_of_countGenerations hwhole₄ (by decide) hrest⟩
      simp only [Option.bind_fun_some] at habove
      exact .next found heard counted habove

/-- The count of a flipped child is carried out. -/
theorem yields_count {child : Flip} {t : Tallies} (padded : Padded D.records)
    (found : D.records.get? a = some r)
    (heard : r.tallies.shiftChild? child.teamSize child.hasThree delta = some t) :
    (update none a (countChild child active delta)).Yields D
      (some (if { r with tallies := t }.crosses active then r.referrer else none))
      (D.withLedger (D.toLedger.put a { r with tallies := t })) := by
  refine yields_update_unchecked padded found ?_
  exact yields_bind.mpr ⟨t, D, yields_checked.mpr ⟨heard, rfl⟩, yields_done.mpr ⟨rfl, rfl⟩⟩

/-- **A chain of messages spreads above an account**, if the first one counts a child of the parent. The
parent may tell of the count of three before it counts its generation. -/
theorem exists_spread_of_relays {child : Flip} {p : AccountId} (whole : Whole D.records)
    (other : parentOf D.records p ≠ some p)
    (h : Relays active maxDepth 1 (Tallies.shiftChild? child.teamSize child.hasThree (flipSign active))
      (some p) D.records m') :
    ∃ D', Spread none active child p D D' ∧ D'.records = m' := by
  cases h with
  | missing hnone =>
      exact ⟨D, .intro (yields_update_of_none hnone) rfl
        (yields_countGenerations_of_none (yields_update_of_none hnone)), rfl⟩
  | next found heard counted above =>
      next s s' t =>
        rw [parentOf_of_get? found] at other
        obtain ⟨-, hactive, htallies, hlength⟩ := same_of_shiftGeneration? counted
        let D₁ := D.withLedger (D.toLedger.put p { s with tallies := t })
        have hwhole₁ : Whole D₁.records := whole.insert ((whole _ _ found).congr rfl)
        obtain ⟨m₁, hthree, hrest⟩ := Relays.bind_iff.mp above
        have hkept : m₁.get? p = some s' := by
          rw [hthree.get?_eq other, SortedMap.get?_insert_self]
        have hearly : Tells ({ s with tallies := t }.tellsThree active) s.referrer D₁.records
            (m₁.insert p { s with tallies := t }) := by
          have hinserted := hthree.insert other { s with tallies := t }
          rwa [SortedMap.insert_insert, Record.tellsThree_congr hactive htallies] at hinserted
        obtain ⟨D₂, hripple, hD₂⟩ := exists_ripples_of_tells hwhole₁.padded hearly
        have hself : D₂.records.get? p = some { s with tallies := t } := by
          rw [hD₂, SortedMap.get?_insert_self]
        have hteam : Relays active 13 2 (fun t => (s.tellsTeam s' t).bind some) s.referrer m₁ m' := by
          simp only [Option.bind_fun_some]
          exact hrest
        obtain ⟨m₂, htells, hrest⟩ := Relays.bind_iff.mp hteam
        have hsame : D₂.records.insert p s' = m₁ := by
          rw [hD₂, SortedMap.insert_insert, SortedMap.insert_of_get? hkept]
        obtain ⟨D₃, rfl, hlevel⟩ := exists_level_of_tells (hD₂ ▸ hearly.whole hwhole₁) hself counted
          (hsame ▸ htells)
        have hwhole₃ := htells.whole (hthree.whole (whole.insert ((whole _ _ found).congr hlength)))
        obtain ⟨D', hclimb, hD'⟩ := exists_yields_of_relays hwhole₃ (by decide) hrest
        exact ⟨D', .intro (yields_count whole.padded found heard) hripple (hlevel D' hclimb), hD'⟩

/-- **Making an account active or inactive is a flip**, if it is not as asked for. -/
theorem toggles_of_setActive {u : Unit} (whole : Whole D.records)
    (distinct : (ascent D.records (maxDepth + 2) (some a)).Nodup)
    (h : (setActive none a active).Yields D u D') :
    (D'.records = D.records ∧ ∀ r, D.records.get? a = some r → r.active = active) ∨
      Toggles active a D.records D'.records := by
  obtain ⟨hsame, hactive⟩ | ⟨r, r', D₁, found, flips, flipped, hD₁, hrest⟩ :=
    yields_setActive whole.padded h
  · exact .inl ⟨congrArg Ledger.records hsame, hactive⟩
  · obtain ⟨-, hreferrer, -, hlength, -⟩ := Record.same_of_flip flipped
    have hrecords : D₁.records = D.records.insert a r' := congrArg Ledger.records hD₁
    refine .inr (.intro found flips flipped ?_)
    rw [← hrecords]
    obtain ⟨hroot, rfl⟩ | ⟨p, hplaced, hspread⟩ := hrest
    · rw [hroot]
      exact .nobody
    · have hwhole : Whole D₁.records := hrecords ▸ whole.insert ((whole _ _ found).congr hlength)
      have hother : parentOf D₁.records p ≠ some p := by
        rw [hrecords, parentOf_insert found hreferrer]
        exact parentOf_ne_self distinct ((parentOf_of_get? found).trans hplaced)
      rw [hplaced]
      exact relays_of_spread hwhole hother hspread

/-- The flip of a record is carried out. -/
theorem yields_flip (padded : Padded D.records) (found : D.records.get? a = some r)
    (flips : r.active ≠ active)
    (flipped : { r with active }.shiftGeneration? 0 (flipSign active) = some r') :
    (update none a (flipRecord active (flipSign active))).Yields D
      (some (some ⟨r'.referrer, r'.activeTeamSize, (byThree : Int) ≤ r'.tallies.firstLine.toInt⟩))
      (D.withLedger (D.toLedger.put a r')) := by
  refine yields_update_unchecked padded found ?_
  rw [flipRecord, if_neg flips]
  exact yields_bind.mpr ⟨r', D, yields_checked.mpr ⟨flipped, rfl⟩, yields_done.mpr ⟨rfl, rfl⟩⟩

/-- **An account that is as asked for**, or has no record, is left as it is. -/
theorem exists_setActive_of_asked (padded : Padded D.records)
    (asked : ∀ r, D.records.get? a = some r → r.active = active) :
    ∃ D', (setActive none a active).Yields D () D' ∧ D'.records = D.records := by
  cases hr : D.records.get? a with
  | none =>
      exact ⟨D, yields_bind.mpr ⟨none, D, yields_update_of_none hr, yields_done.mpr ⟨rfl, rfl⟩⟩, rfl⟩
  | some r =>
      have hkeep : (update none a (flipRecord active (flipSign active))).Yields D (some none)
          (D.withLedger (D.toLedger.put a r)) := by
        refine yields_update_unchecked padded hr ?_
        rw [flipRecord, if_pos (asked r hr)]
        exact yields_done.mpr ⟨rfl, rfl⟩
      exact ⟨_, yields_bind.mpr ⟨some none, _, hkeep, yields_done.mpr ⟨rfl, rfl⟩⟩,
        SortedMap.insert_of_get? hr⟩

/-- **A flip is what makes an account active or inactive.** -/
theorem exists_setActive_of_toggles (whole : Whole D.records)
    (distinct : (ascent D.records (maxDepth + 2) (some a)).Nodup) (h : Toggles active a D.records m') :
    ∃ D', (setActive none a active).Yields D () D' ∧ D'.records = m' := by
  obtain ⟨found, flips, flipped, above⟩ := h
  next r r' =>
    obtain ⟨-, hreferrer, -, hlength, -⟩ := Record.same_of_flip flipped
    let D₁ := D.withLedger (D.toLedger.put a r')
    have hflip := yields_flip whole.padded found flips flipped
    cases hplaced : r.referrer with
    | none =>
        rw [hplaced] at above
        cases above
        exact ⟨D₁, yields_setActive_of_root hflip (hreferrer.trans hplaced), rfl⟩
    | some p =>
        have hwhole : Whole D₁.records := whole.insert ((whole _ _ found).congr hlength)
        have hother : parentOf D₁.records p ≠ some p := by
          rw [show parentOf D₁.records = parentOf D.records from parentOf_insert found hreferrer]
          exact parentOf_ne_self distinct ((parentOf_of_get? found).trans hplaced)
        rw [hplaced] at above
        let child : Flip := ⟨r'.referrer, r'.activeTeamSize, (byThree : Int) ≤ r'.tallies.firstLine.toInt⟩
        have hspreads : ∃ D', Spread none active child p D₁ D' ∧ D'.records = m' :=
          exists_spread_of_relays hwhole hother above
        obtain ⟨D', hspread, hD'⟩ := hspreads
        exact ⟨D', yields_setActive_of_spread hflip (hreferrer.trans hplaced) hspread, hD'⟩

end Cascade

end ReferralForest

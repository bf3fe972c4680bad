import ReferralForest.Proofs.Cascade.Walk

/-!
# Spreading a Flip

The cascade of an account that becomes active or ceases to be, taken apart into its phases: the flip of
the account's own record, and the counts in the records above it. The phases above the account are a
walk that changes counts only.

## Main definitions

* `Cascade.Ripples`, `Cascade.Stride.Corrects` — the corrections that follow on a change of counts.
* `Cascade.Spread` — the phases above the account.

## Main statements

* `Cascade.yields_setActive` — nothing is flipped, or one record is and the flip spreads.
* `Cascade.yields_countGenerations_succ` — one level of the walk over the generations.
* `Cascade.walk_spread`, `Cascade.walk_setActive`, `Cascade.walk_changeStake` — the cascades that
  change what is counted are walks.
-/

namespace ReferralForest

namespace Cascade

open Ledger

variable {D D' : Draft}

/-- The sign of a flip. -/
def flipSign (active : Bool) : Int := if active then 1 else -1

/-- Moves the count by three of a record. -/
def countByThree (delta : Int) (r : Record) : Cascade (Unit × Record) := do
  let tallies ← checked countName (r.tallies.shiftByThree? delta)
  return ((), { r with tallies })

/-- What follows at an account whose referral crosses the border of three: its count by three moves. -/
def Ripples (checkAt : Option Timestamp) (active : Bool) (crossed : Option AccountId)
    (D D' : Draft) : Prop :=
  match crossed with
  | none => D' = D
  | some grandparent =>
    ∃ v, (update checkAt grandparent (countByThree (flipSign active))).Yields D v D'

/-- What follows at the next ancestor when the team of an active account changes its size: the team
moves from one size class to another. -/
def Stride.Corrects (checkAt : Option Timestamp) (stride : Stride) (D D' : Draft) : Prop :=
  match stride.next, stride.moved with
  | some next, some (before, after) =>
    ∃ v, (update checkAt next (reclassify before after)).Yields D v D'
  | _, _ => D' = D

/-- **The phases of a flip above the account itself**: the first line of its parent, the count by three
of its grandparent if the parent crosses the border, and the generations of its ancestors. -/
inductive Spread (checkAt : Option Timestamp) (active : Bool) (child : Flip) (parent : AccountId) :
    Draft → Draft → Prop
  | intro {D D₁ D₂ D' : Draft} {crossed : Option (Option AccountId)} {u : Unit}
      (count : (update checkAt parent (countChild child active (flipSign active))).Yields D crossed D₁)
      (ripple : Ripples checkAt active crossed.join D₁ D₂)
      (climb : (countGenerations checkAt (flipSign active) maxDepth 1 (some parent)).Yields D₂ u D') :
      Spread checkAt active child parent D D'

/-! ### Single changes -/

/-- The flip of a record. -/
theorem yields_flipRecord {active : Bool} {delta : Int} {r r' : Record} {b : Option Flip}
    (h : (flipRecord active delta r).Yields D (b, r') D') :
    D' = D ∧ (r.active = active ∧ b = none ∧ r' = r ∨
      r.active ≠ active ∧ { r with active }.shiftGeneration? 0 delta = some r' ∧
        b = some ⟨r'.referrer, r'.activeTeamSize,
          (byThree : Int) ≤ r'.tallies.firstLine.toInt⟩) := by
  rw [flipRecord] at h
  split at h
  next hsame =>
      obtain ⟨hb, rfl⟩ := yields_done.mp h
      obtain ⟨rfl, rfl⟩ := Prod.mk.inj hb
      exact ⟨rfl, .inl ⟨hsame, rfl, rfl⟩⟩
  next hflip =>
      simp only [yields_bind, yields_checked, Dialogue.pure_def, yields_done] at h
      obtain ⟨r₁, _, ⟨hshift, rfl⟩, hb, rfl⟩ := h
      obtain ⟨rfl, rfl⟩ := Prod.mk.inj hb
      exact ⟨rfl, .inr ⟨hflip, hshift, rfl⟩⟩

/-- The change of the parent's first line. -/
theorem yields_countChild {child : Flip} {active : Bool} {delta : Int} {r r' : Record}
    {crossed : Option AccountId} (h : (countChild child active delta r).Yields D (crossed, r') D') :
    D' = D ∧ ∃ tallies, r.tallies.shiftChild? child.teamSize child.hasThree delta = some tallies ∧
      r' = { r with tallies } ∧
      crossed = if r.active && tallies.firstLine.toInt ==
        (if active then (byThree : Int) else byThree - 1) then r.referrer else none := by
  simp only [countChild, yields_bind, yields_checked, Dialogue.pure_def, yields_done] at h
  obtain ⟨tallies, _, ⟨hshift, rfl⟩, hb, rfl⟩ := h
  obtain ⟨rfl, rfl⟩ := Prod.mk.inj hb
  exact ⟨rfl, tallies, hshift, rfl, rfl⟩

/-- The change of a count by three. -/
theorem yields_countByThree {delta : Int} {r r' : Record} {u : Unit}
    (h : (countByThree delta r).Yields D (u, r') D') :
    D' = D ∧ ∃ tallies, r.tallies.shiftByThree? delta = some tallies ∧ r' = { r with tallies } := by
  simp only [countByThree, yields_bind, yields_checked, Dialogue.pure_def, yields_done] at h
  obtain ⟨tallies, _, ⟨hshift, rfl⟩, hb, rfl⟩ := h
  obtain ⟨-, rfl⟩ := Prod.mk.inj hb
  exact ⟨rfl, tallies, hshift, rfl⟩

/-- The change of a generation counter. -/
theorem yields_countDescendant {generation : Nat} {delta : Int} {r r' : Record} {stride : Stride}
    (h : (countDescendant generation delta r).Yields D (stride, r') D') :
    D' = D ∧ r.shiftGeneration? generation delta = some r' ∧
      stride = ⟨r'.referrer, if r'.active ∧ r.activeTeamSize ≠ r'.activeTeamSize then
        some (r.activeTeamSize, r'.activeTeamSize) else none⟩ := by
  simp only [countDescendant, yields_bind, yields_checked, Dialogue.pure_def, yields_done] at h
  obtain ⟨r₁, _, ⟨hshift, rfl⟩, hb, rfl⟩ := h
  obtain ⟨rfl, rfl⟩ := Prod.mk.inj hb
  exact ⟨rfl, hshift, rfl⟩

/-- The move of a team from one size class to another. -/
theorem yields_reclassify {before after : Nat} {r r' : Record} {u : Unit}
    (h : (reclassify before after r).Yields D (u, r') D') :
    D' = D ∧ ∃ tallies, r.tallies.moveTeam? before after = some tallies ∧
      r' = { r with tallies } := by
  simp only [reclassify, yields_bind, yields_checked, Dialogue.pure_def, yields_done] at h
  obtain ⟨tallies, _, ⟨hshift, rfl⟩, hb, rfl⟩ := h
  obtain ⟨-, rfl⟩ := Prod.mk.inj hb
  exact ⟨rfl, tallies, hshift, rfl⟩

/-- Moving a generation counter changes that counter only. -/
theorem shiftGeneration?_eq_some {generation : Nat} {delta : Int} {r r' : Record}
    (h : r.shiftGeneration? generation delta = some r') :
    ∃ counter moved, r.generations[generation]? = some counter ∧
      counterShift? counter delta = some moved ∧
      r' = { r with generations := r.generations.set generation moved } := by
  simp only [Record.shiftGeneration?, Option.bind_eq_bind, Option.bind_eq_some_iff] at h
  obtain ⟨counter, hcounter, moved, hmoved, hr⟩ := h
  exact ⟨counter, moved, hcounter, hmoved, (Option.some.inj hr).symm⟩

/-! ### Phases -/

/-- One level of the walk over the generations. -/
theorem yields_countGenerations_succ {checkAt : Option Timestamp} {delta : Int}
    {levels generation : Nat} {ancestor : AccountId} {u : Unit}
    (h : (countGenerations checkAt delta (levels + 1) generation (some ancestor)).Yields D u D') :
    ∃ result D₁, (update checkAt ancestor (countDescendant generation delta)).Yields D result D₁ ∧
      (result = none ∧ D' = D₁ ∨ ∃ stride D₂, result = some stride ∧
        stride.Corrects checkAt D₁ D₂ ∧
        (countGenerations checkAt delta levels (generation + 1) stride.next).Yields D₂ u D') := by
  obtain ⟨result, D₁, hupdate, hrest⟩ := yields_bind.mp h
  refine ⟨result, D₁, hupdate, ?_⟩
  cases result with
  | none => exact .inl ⟨rfl, (yields_done.mp hrest).2⟩
  | some stride =>
      refine .inr ⟨stride, ?_⟩
      obtain ⟨next, moved⟩ := stride
      cases next with
      | none => exact ⟨D₁, rfl, rfl, hrest⟩
      | some next =>
          cases moved with
          | none => exact ⟨D₁, rfl, rfl, hrest⟩
          | some sizes =>
              obtain ⟨v, D₂, hmove, hrest⟩ := yields_bind.mp hrest
              exact ⟨D₂, rfl, ⟨v, hmove⟩, hrest⟩

/-- **The phases of a flip.** Either the ledger stays as it is, since the account has no record or is as
asked for, or its record is flipped and the flip spreads to its parent, if it has one. -/
theorem yields_setActive {checkAt : Option Timestamp} {a : AccountId} {active : Bool} {u : Unit}
    (padded : Roster.Padded D.records) (h : (setActive checkAt a active).Yields D u D') :
    (D'.toLedger = D.toLedger ∧ ∀ r, D.records.get? a = some r → r.active = active) ∨
      ∃ r r₁ D₁, D.records.get? a = some r ∧ r.active ≠ active ∧
        { r with active }.shiftGeneration? 0 (flipSign active) = some r₁ ∧
        D₁.toLedger = D.toLedger.put a r₁ ∧
        (r.referrer = none ∧ D' = D₁ ∨ ∃ parent, r.referrer = some parent ∧
          Spread checkAt active ⟨r.referrer, r₁.activeTeamSize,
            (byThree : Int) ≤ r₁.tallies.firstLine.toInt⟩ parent D₁ D') := by
  obtain ⟨result, D₁, hupdate, hrest⟩ := yields_bind.mp h
  obtain ⟨hnone, rfl, rfl⟩ | ⟨r, b, r₁, D₀, r₂, L₂, hr, hchange, settles, rfl, hD₁⟩ :=
    yields_update hupdate
  · obtain ⟨-, rfl⟩ := yields_done.mp hrest
    exact .inl ⟨rfl, fun r hr => absurd (hnone.symm.trans hr) (by simp)⟩
  · rw [Record.normalize_of_length (padded a r hr)] at hchange
    cases settles
    obtain ⟨rfl, ⟨hsame, rfl, rfl⟩ | ⟨hflip, hshift, rfl⟩⟩ := yields_flipRecord hchange
    · obtain ⟨-, rfl⟩ := yields_done.mp hrest
      refine .inl ⟨hD₁.trans ?_, fun r hr' => ?_⟩
      · rw [Ledger.put, SortedMap.insert_of_get? hr]
      · exact Option.some.inj (hr.symm.trans hr') ▸ hsame
    · obtain ⟨counter, moved, -, -, rfl⟩ := shiftGeneration?_eq_some hshift
      refine .inr ⟨r, _, D₁, hr, hflip, hshift, hD₁, ?_⟩
      dsimp only [Option.join_some] at hrest
      cases hparent : r.referrer with
      | none =>
          rw [hparent] at hrest
          exact .inl ⟨rfl, (yields_done.mp hrest).2⟩
      | some parent =>
          rw [hparent] at hrest
          obtain ⟨crossed, D₂, hcount, hrest⟩ := yields_bind.mp hrest
          refine .inr ⟨parent, rfl, ?_⟩
          cases hcrossed : crossed.join with
          | none =>
              rw [hcrossed] at hrest
              exact .intro hcount (by rw [hcrossed]; rfl) hrest
          | some grandparent =>
              rw [hcrossed] at hrest
              obtain ⟨v, D₃, hripple, hrest⟩ := yields_bind.mp hrest
              exact .intro hcount (by rw [hcrossed]; exact ⟨v, hripple⟩) hrest

/-! ### A spreading flip is a walk -/

variable {checkAt : Option Timestamp}

/-- Flipping a record changes nothing but its activity and its counts. -/
theorem plain_flipRecord (active : Bool) (delta : Int) :
    Plain (fun _ _ => True) (flipRecord active delta) := by
  intro D r b r' D' h
  obtain ⟨rfl, ⟨-, -, rfl⟩ | ⟨-, hshift, -⟩⟩ := yields_flipRecord h
  · exact ⟨rfl, ⟨rfl, rfl, rfl, rfl⟩, trivial⟩
  · obtain ⟨counter, moved, -, -, rfl⟩ := shiftGeneration?_eq_some hshift
    exact ⟨rfl, ⟨rfl, rfl, rfl, List.length_set⟩, trivial⟩

/-- Counting a child changes nothing but the tallies of its parent. -/
theorem plain_countChild (child : Flip) (active : Bool) (delta : Int) :
    Plain (Edit.counts checkAt checkAt) (countChild child active delta) := by
  intro D r b r' D' h
  obtain ⟨rfl, tallies, -, rfl, -⟩ := yields_countChild h
  exact ⟨rfl, ⟨rfl, rfl, rfl, rfl⟩, rfl, r.generations, tallies, rfl⟩

/-- Counting by three changes nothing but tallies. -/
theorem plain_countByThree (delta : Int) :
    Plain (Edit.counts checkAt checkAt) (countByThree delta) := by
  intro D r b r' D' h
  obtain ⟨rfl, tallies, -, rfl⟩ := yields_countByThree h
  exact ⟨rfl, ⟨rfl, rfl, rfl, rfl⟩, rfl, r.generations, tallies, rfl⟩

/-- Counting a descendant changes nothing but one counter. -/
theorem plain_countDescendant (generation : Nat) (delta : Int) :
    Plain (Edit.counts checkAt checkAt) (countDescendant generation delta) := by
  intro D r b r' D' h
  obtain ⟨rfl, hshift, -⟩ := yields_countDescendant h
  obtain ⟨counter, moved, -, -, rfl⟩ := shiftGeneration?_eq_some hshift
  exact ⟨rfl, ⟨rfl, rfl, rfl, List.length_set⟩, rfl, _, r.tallies, rfl⟩

/-- Moving a team to another size class changes nothing but tallies. -/
theorem plain_reclassify (before after : Nat) :
    Plain (Edit.counts checkAt checkAt) (reclassify before after) := by
  intro D r b r' D' h
  obtain ⟨rfl, tallies, -, rfl⟩ := yields_reclassify h
  exact ⟨rfl, ⟨rfl, rfl, rfl, rfl⟩, rfl, r.generations, tallies, rfl⟩

/-- A ripple is a walk. -/
theorem walk_ripples {active : Bool} {crossed : Option AccountId} (full : Roster.Full D.records)
    (h : Ripples checkAt active crossed D D') :
    Walk (Edit.counts checkAt) D.toLedger D'.toLedger := by
  cases crossed with
  | none => exact (show D' = D from h) ▸ .refl
  | some grandparent =>
      obtain ⟨v, hupdate⟩ := h
      exact walk_update (plain_countByThree _) full hupdate

/-- The correction after a stride is a walk. -/
theorem walk_corrects {stride : Stride} (full : Roster.Full D.records)
    (h : stride.Corrects checkAt D D') : Walk (Edit.counts checkAt) D.toLedger D'.toLedger := by
  obtain ⟨_ | next, _ | ⟨before, after⟩⟩ := stride
  case some.some =>
      obtain ⟨v, hupdate⟩ := h
      exact walk_update (plain_reclassify before after) full hupdate
  all_goals exact (show D' = D from h) ▸ .refl

/-- Counting a flip in the generations above is a walk. -/
theorem walk_countGenerations {delta : Int} {levels generation : Nat} {start : Option AccountId}
    {u : Unit} (full : Roster.Full D.records)
    (h : (countGenerations checkAt delta levels generation start).Yields D u D') :
    Walk (Edit.counts checkAt) D.toLedger D'.toLedger := by
  induction levels generalizing generation start D with
  | zero =>
      obtain ⟨-, rfl⟩ := yields_done.mp h
      exact .refl
  | succ levels ih =>
      cases start with
      | none =>
          obtain ⟨-, rfl⟩ := yields_done.mp h
          exact .refl
      | some ancestor =>
          obtain ⟨result, D₁, hupdate, hrest⟩ := yields_countGenerations_succ h
          have hwalk := walk_update (plain_countDescendant generation delta) full hupdate
          obtain ⟨-, rfl⟩ | ⟨stride, D₂, -, hcorrects, hrest⟩ := hrest
          · exact hwalk
          · have hboth : Walk (Edit.counts checkAt) D.toLedger D₂.toLedger :=
              hwalk.trans (walk_corrects (hwalk.full full) hcorrects)
            exact hboth.trans (ih (hboth.full full) hrest)

/-- **A spreading flip is a walk** that changes counts only. -/
theorem walk_spread {active : Bool} {child : Flip} {parent : AccountId}
    (full : Roster.Full D.records) (h : Spread checkAt active child parent D D') :
    Walk (Edit.counts checkAt) D.toLedger D'.toLedger := by
  obtain ⟨hcount, hripple, hclimb⟩ := h
  next D₁ D₂ crossed u =>
      have hwalk := walk_update (plain_countChild child active _) full hcount
      have hboth : Walk (Edit.counts checkAt) D.toLedger D₂.toLedger :=
        hwalk.trans (walk_ripples (hwalk.full full) hripple)
      exact hboth.trans (walk_countGenerations (hboth.full full) hclimb)

/-- **Making an account active or inactive is a walk** that changes activity and counts only. -/
theorem walk_setActive {a : AccountId} {active : Bool} {u : Unit} (full : Roster.Full D.records)
    (h : (setActive checkAt a active).Yields D u D') :
    Walk (Edit.activity checkAt) D.toLedger D'.toLedger := by
  obtain ⟨heq, -⟩ | ⟨r, r₁, D₁, hr, -, hshift, hD₁, hrest⟩ := yields_setActive full.padded h
  · exact heq ▸ .refl
  · obtain ⟨counter, moved, -, -, hr₁⟩ := shiftGeneration?_eq_some hshift
    have hedits : r.Edits r₁ := by
      subst hr₁
      exact ⟨rfl, rfl, rfl, List.length_set⟩
    have hflip : Walk (Edit.activity checkAt) D.toLedger D₁.toLedger := by
      rw [hD₁]
      exact .single (.intro hr hedits ⟨active, _, _, hr₁, .inr ⟨rfl, rfl⟩⟩ .unchecked)
    obtain ⟨-, rfl⟩ | ⟨parent, -, hspread⟩ := hrest
    · exact hflip
    · have hwalk := walk_spread (hflip.full full) hspread
      refine hflip.trans (hwalk.mono fun c r r' how => ?_)
      obtain ⟨hc, generations, tallies, rfl⟩ := how
      exact ⟨r.active, generations, tallies, rfl, .inl hc⟩

/-- A stake change is a walk. -/
theorem walk_changeStake {now : Timestamp} {a : AccountId} {delta : Int} {bound : Nat} {u : Unit}
    (full : Roster.Full D.records) (h : (changeStake now a delta bound).Yields D u D') :
    Walk (Edit.settled (some now)) D.toLedger D'.toLedger := by
  obtain ⟨-, rfl⟩ | ⟨r, stake, r₂, L₂, D₁, D₂, hr, -, settles, hD₁, hraise, hflip⟩ :=
    yields_changeStake full h
  · exact .refl
  · have hedits : r.Edits { r with selfStake := stake } := ⟨rfl, rfl, rfl, rfl⟩
    have hself : Walk (Edit.settled (some now)) D.toLedger D₁.toLedger := by
      rw [hD₁]
      exact .single (.intro hr hedits (.inl rfl) settles)
    have hteams := walk_raiseTeams (hself.full full) hraise
    have hboth : Walk (Edit.settled (some now)) D.toLedger D₂.toLedger :=
      hself.trans (hteams.mono fun _ _ _ how => .inl how.1)
    obtain ⟨-, rfl⟩ | ⟨-, hactive⟩ := hflip
    · exact hboth
    · have hwalk := walk_setActive (hboth.full full) hactive
      exact hboth.trans (hwalk.mono fun _ _ _ how => Edit.settled_of_activity how)

end Cascade

end ReferralForest

import ReferralForest.Proofs.Forest.Settled
import ReferralForest.Proofs.Status.Measures

/-!
# Rising Walks

A walk *rises* if no stride of it lowers the measures of the record it changes. Along such a walk a
record that meets the requirement of its tier goes on meeting it, so nobody is put on notice who has
climbed as far as possible before; and where the record ends is decided by its measures at the end, not
by the way they have come about.

## Main definitions

* `Edit.rising` — the changes that only raise measures.
* `Record.standing` — the tier and the schedule to which measures lead from given ones.
* `Record.Awaits` — a record that does not have the measures of its tier and schedule yet.

## Main statements

* `Ledger.Walk.measuresLe` — a rising walk lowers nobody's measures.
* `Ledger.Walk.standing_eq` — where a record ends that had climbed as far as it could.
* `Ledger.Walk.restores` — a record that is given back its measures keeps the tier and the schedule to
  which they belong.
-/

namespace ReferralForest

/-- The measures only rise, and the record is settled unless they stay as they are. -/
def Edit.rising : Edit := fun c r r' => r.MeasuresLe r' ∧ (c = none → r'.measures = r.measures)

/-- **The tier and the schedule** to which a record's measures lead from given ones: if the measures
meet the requirement of the tier, the record climbs from there and is not scheduled. -/
def Record.standing (r : Record) (s : Status) (d : Option Timestamp) : Status × Option Timestamp :=
  if s.metBy r then (Cascade.climb r s, none) else (s, d)

/-- Settling changes no measure. -/
theorem Ledger.Settles.measures_eq {L L' : Ledger} {a : AccountId} {c : Option Timestamp}
    {r r' : Record} (h : L.Settles a c r r' L') : r'.measures = r.measures := by
  obtain ⟨s, t, rfl⟩ := h.exists_eq_update
  rfl

/-- **Settling a record** puts it where its measures lead, unless it fails the requirement of its tier
and is not scheduled. -/
theorem Ledger.Settles.standing_eq {L L' : Ledger} {a : AccountId} {now : Timestamp} {r r' : Record}
    (h : L.Settles a (some now) r r' L')
    (held : r.downgradeAt = none → r.status.metBy r = true) :
    (r'.status, r'.downgradeAt) = r.standing r.status r.downgradeAt := by
  rw [Record.standing]
  cases h with
  | met hmet hnone => rw [if_pos hmet, hnone]
  | canceled hmet => rw [if_pos hmet]
  | waiting hunmet => rw [if_neg (by simp [hunmet])]
  | failing hunmet hnone => exact absurd ((held hnone).symm.trans hunmet) (by simp)

/-- Only measures decide about a standing. -/
theorem Record.standing_congr {r r' : Record} (h : r'.measures = r.measures) (s : Status)
    (d : Option Timestamp) : r'.standing s d = r.standing s d := by
  have hmet : ∀ t : Status, t.metBy r' = t.metBy r := Status.metBy_congr h
  simp only [standing, Cascade.climb, hmet]

/-- A record that has climbed stands where its measures lead. -/
theorem Record.Climbed.standing_eq {r : Record} (h : r.Climbed) :
    r.standing r.status r.downgradeAt = (r.status, r.downgradeAt) := by
  rw [Record.standing]
  cases hd : r.downgradeAt with
  | none => rw [if_pos (h.met hd), Cascade.climb_eq_self (h.stops hd)]
  | some t => rw [if_neg (by simp [h.unmet (by simp [hd])])]

/-- **Rising further** leads from a standing to the standing of the larger measures. -/
theorem Record.standing_standing {r r' : Record} (h : r.MeasuresLe r') {s : Status}
    {d : Option Timestamp} {q : Status × Option Timestamp} (hq : q = r.standing s d) :
    r'.standing q.1 q.2 = r'.standing s d := by
  subst hq
  cases hmet : s.metBy r with
  | false => rw [show r.standing s d = (s, d) from if_neg (by simp [hmet])]
  | true =>
      have hstands : r.standing s d = (Cascade.climb r s, none) := if_pos hmet
      have hclimbed : (Cascade.climb r s).metBy r' = true :=
        Status.metBy_mono h (Cascade.metBy_climb hmet)
      rw [hstands, standing, standing, if_pos hclimbed, if_pos (Status.metBy_mono h hmet),
        Cascade.climb_climb h]

/-! ### Records on their way back -/

/-- **A record that awaits the measures** to which a tier and a schedule belong: it has the tier and the
schedule, but where nothing ought to be scheduled it may be on notice as long as it fails the tier. -/
structure Record.Awaits (r : Record) (s : Status) (d : Option Timestamp) : Prop where
  /-- It has the tier. -/
  tier : r.status = s
  /-- It has the schedule, if there is one. -/
  scheduled : d ≠ none → r.downgradeAt = d
  /-- It is not scheduled once it meets the requirement of the tier, if there is no schedule. -/
  free : d = none → s.metBy r = true → r.downgradeAt = none

namespace Record.Awaits

variable {s : Status} {d : Option Timestamp} {q q₁ q₂ r : Record}

/-- Measures short of those to which a tier belongs lead to no higher tier, if nothing is scheduled. -/
theorem climb_eq (climbed : Record.Climbed { r with status := s, downgradeAt := d })
    (within : q.MeasuresLe r) (hd : d = none) : Cascade.climb q s = s := by
  refine Cascade.climb_eq_self fun t ht => ?_
  have hstop : t.metBy r = false := (Status.metBy_congr rfl t).symm.trans (climbed.stops hd t ht)
  rw [← Bool.not_eq_true] at hstop ⊢
  exact fun hmet => hstop (Status.metBy_mono within hmet)

/-- Measures that meet the requirement of the tier belong to no schedule. -/
theorem eq_none_of_met (climbed : Record.Climbed { r with status := s, downgradeAt := d })
    (within : q.MeasuresLe r) (hmet : s.metBy q = true) : d = none := by
  by_contra hd
  have hfails : s.metBy r = false := (Status.metBy_congr rfl s).symm.trans (climbed.unmet hd)
  exact absurd ((Status.metBy_mono within hmet).symm.trans hfails) (by simp)

/-- **A rising change that is settled** leaves a record awaiting, as long as its measures stay within
those it awaits. -/
theorem settle {c : Option Timestamp} {M M' : Ledger} {a : AccountId} (h : q.Awaits s d)
    (edits : q.Edits q₁) (rises : Edit.rising c q q₁)
    (climbed : Record.Climbed { r with status := s, downgradeAt := d }) (within : q₁.MeasuresLe r)
    (settles : M.Settles a c q₁ q₂ M') : q₂.Awaits s d := by
  have htier : q₁.status = s := edits.status.trans h.tier
  have hkept : d ≠ none → q₁.downgradeAt = d := fun hd => edits.downgradeAt.trans (h.scheduled hd)
  have hclimbs : q₁.status.metBy q₁ = true → d = none ∧ Cascade.climb q₁ q₁.status = s := by
    rw [htier]
    intro hmet
    have hd := eq_none_of_met climbed within hmet
    exact ⟨hd, climb_eq climbed within hd⟩
  cases settles with
  | unchecked =>
      refine ⟨htier, hkept, fun hd hmet => edits.downgradeAt.trans (h.free hd ?_)⟩
      rwa [Status.metBy_congr (rises.2 rfl)] at hmet
  | met hmet hnone =>
      obtain ⟨hd, hclimb⟩ := hclimbs hmet
      exact ⟨hclimb, fun hne => absurd hd hne, fun _ _ => hnone⟩
  | canceled hmet =>
      obtain ⟨hd, hclimb⟩ := hclimbs hmet
      exact ⟨hclimb, fun hne => absurd hd hne, fun _ _ => rfl⟩
  | waiting hfails =>
      refine ⟨htier, hkept, fun _ hmet => ?_⟩
      rw [← htier] at hmet
      exact absurd (hmet.symm.trans hfails) (by simp)
  | failing hfails hnone =>
      refine ⟨htier, fun hd => absurd ((hkept hd).symm.trans hnone) hd, fun _ hmet => ?_⟩
      rw [← htier] at hmet
      exact absurd (hmet.symm.trans hfails) (by simp)

end Record.Awaits

namespace Ledger.Walk

variable {L L' : Ledger} {a : AccountId} {r r' : Record}

/-- **A rising walk lowers nobody's measures.** -/
theorem measuresLe (h : Walk Edit.rising L L') (found : L.records.get? a = some r) :
    ∃ r', L'.records.get? a = some r' ∧ r.MeasuresLe r' := by
  classical
  refine h.invariant (I := fun M => ∃ r', M.records.get? a = some r' ∧ r.MeasuresLe r')
    (fun M M' hs hM => ?_) ⟨r, found, .refl r⟩
  obtain ⟨q, hq, hle⟩ := hM
  obtain ⟨hfound, -, how, settles⟩ := hs
  next L₂ b c q₀ q₁ q₂ =>
    rw [Ledger.put, SortedMap.get?_insert, settles.records_eq]
    split
    next hab =>
        rw [hab] at hq
        obtain rfl := Option.some.inj (hq.symm.trans hfound)
        exact ⟨q₂, rfl, (hle.trans how.1).trans (.of_eq settles.measures_eq)⟩
    next => exact ⟨q, hq, hle⟩

/-- **What each stride keeps about a record**, whose measures stay within those it has at the end, it
keeps to the end. -/
theorem record_invariant {Q : Record → Prop} (h : Walk Edit.rising L L')
    (found : L.records.get? a = some r) (found' : L'.records.get? a = some r') (start : Q r)
    (step : ∀ (c : Option Timestamp) (q q₁ q₂ : Record) (M M' : Ledger), Q q → q.Edits q₁ →
      Edit.rising c q q₁ → q₁.MeasuresLe r' → M.Settles a c q₁ q₂ M' → Q q₂) : Q r' := by
  classical
  induction h using Relation.ReflTransGen.head_induction_on generalizing r with
  | refl => exact Option.some.inj (found.symm.trans found') ▸ start
  | head hs rest ih =>
      obtain ⟨hfound, hedits, how, settles⟩ := hs
      next M b c q₀ q₁ q₂ =>
        by_cases hab : a = b
        · subst hab
          obtain rfl := Option.some.inj (found.symm.trans hfound)
          have hput : (M.put a q₂).records.get? a = some q₂ := SortedMap.get?_insert_self _ _ _
          obtain ⟨q', hq', hle⟩ := measuresLe rest hput
          obtain rfl := Option.some.inj (hq'.symm.trans found')
          have hwithin : q₁.MeasuresLe q' := (Record.MeasuresLe.of_eq settles.measures_eq).trans hle
          exact ih hput (step _ _ _ _ _ _ start hedits how hwithin settles)
        · refine ih ?_ start
          rw [Ledger.put, SortedMap.get?_insert_of_ne _ _ hab, settles.records_eq]
          exact found

/-- **Where a record ends that had climbed** as far as it could: where its measures at the end lead from its
tier and schedule at the beginning. A record without a schedule met the requirement of its tier at the
beginning, so it does at the end. -/
theorem standing_eq (h : Walk Edit.rising L L') (found : L.records.get? a = some r)
    (found' : L'.records.get? a = some r') (climbed : r.Climbed) :
    (r'.status, r'.downgradeAt) = r'.standing r.status r.downgradeAt := by
  have hall : r.MeasuresLe r' ∧ (r'.status, r'.downgradeAt) = r'.standing r.status r.downgradeAt := by
    refine h.record_invariant found found' (Q := fun q => r.MeasuresLe q ∧
      (q.status, q.downgradeAt) = q.standing r.status r.downgradeAt) ⟨.refl r, ?_⟩ ?_
    · exact climbed.standing_eq.symm
    · rintro c q q₁ q₂ M M' ⟨hle, hstands⟩ hedits ⟨hrises, hunchecked⟩ - settles
      have hsame := settles.measures_eq
      refine ⟨(hle.trans hrises).trans (.of_eq hsame), ?_⟩
      rw [Record.standing_congr hsame]
      have hnow : (q₁.status, q₁.downgradeAt) = q.standing r.status r.downgradeAt := by
        rw [hedits.status, hedits.downgradeAt]
        exact hstands
      cases c with
      | none =>
          cases settles
          rw [hnow, Record.standing_congr (hunchecked rfl)]
      | some now =>
          rw [settles.standing_eq ?_]
          · exact Record.standing_standing hrises hnow
          · intro hnone
            refine Status.metBy_mono hrises ?_
            cases hmet : r.status.metBy q with
            | true =>
                rw [show q.standing r.status r.downgradeAt = (Cascade.climb q r.status, none) from
                  if_pos hmet] at hnow
                rw [(Prod.mk.inj hnow).1]
                exact Cascade.metBy_climb hmet
            | false =>
                rw [show q.standing r.status r.downgradeAt = (r.status, r.downgradeAt) from
                  if_neg (by simp [hmet])] at hnow
                have hfirst := climbed.met ((Prod.mk.inj hnow).2 ▸ hnone)
                exact absurd ((Status.metBy_mono hle hfirst).symm.trans hmet) (by simp)
  exact hall.2

/-- **A record that is given back its measures** keeps the tier and the schedule to which they belong,
whatever notices it is put on while it does not have them yet. -/
theorem restores {s : Status} {d : Option Timestamp} (h : Walk Edit.rising L L')
    (found : L.records.get? a = some r) (found' : L'.records.get? a = some r')
    (tier : r.status = s) (scheduled : r.downgradeAt = d)
    (climbed : Record.Climbed { r' with status := s, downgradeAt := d }) :
    r'.status = s ∧ r'.downgradeAt = d := by
  have hstart : r.Awaits s d := ⟨tier, fun _ => scheduled, fun hd _ => scheduled.trans hd⟩
  have hend : r'.Awaits s d := by
    refine h.record_invariant found found' (Q := fun q => q.Awaits s d) hstart ?_
    intro c q q₁ q₂ M M' hawaits hedits hrises hwithin settles
    exact hawaits.settle hedits hrises climbed hwithin settles
  refine ⟨hend.tier, ?_⟩
  by_cases hd : d = none
  · have hmet : s.metBy r' = true := (Status.metBy_congr rfl s).symm.trans (climbed.met hd)
    rw [hd, hend.free hd hmet]
  · exact hend.scheduled hd

end Ledger.Walk

end ReferralForest

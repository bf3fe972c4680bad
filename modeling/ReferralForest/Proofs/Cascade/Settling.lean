import Mathlib.Data.List.TakeWhile
import ReferralForest.Proofs.Ledger.Draft

/-!
# Settling a Record

What a status check does to a record, to the downgrade queue and to what is made known of them, case by
case, and what an update of a record therefore does to a ledger. Whatever is later said about what a
status check yields is read off these cases.

## Main definitions

* `Ledger.Settles` — the outcome of a status check on a record and the ledger.
* `Draft.Refreshes` — the same on a draft, with what is told and announced of it.
* `Record.Climbed` — what a status check leaves behind.

## Main statements

* `Cascade.yields_refresh` — what a status check yields is one of the outcomes.
* `Cascade.yields_update` — an update changes one record, or finds none.
* `Ledger.Settles.queue_iff`, `Ledger.Settles.climbed` — a settled record and its queue entry agree,
  and the record has climbed as far as it can.
-/

namespace ReferralForest

namespace Status

/-- No tier is below itself. -/
theorem lt_irrefl (s : Status) : ¬ s < s := Nat.lt_irrefl s.rank

/-- Tiers are ordered by their ranks. -/
theorem lt_def {s t : Status} : s < t ↔ s.rank < t.rank := Iff.rfl

/-- Tiers are ordered by their ranks, equal ones included. -/
theorem le_def {s t : Status} : s ≤ t ↔ s.rank ≤ t.rank := Iff.rfl

end Status

/-- **The outcome of a status check** on a record of an account: the record and the ledger after it.
Without a time nothing is checked. -/
inductive Ledger.Settles (L : Ledger) (a : AccountId) :
    Option Timestamp → Record → Record → Ledger → Prop
  /-- Nothing is checked. -/
  | unchecked {r : Record} : Settles L a none r r L
  /-- The record meets its tier's requirement and climbs. -/
  | met {now : Timestamp} {r : Record} (met : r.status.metBy r = true)
      (unscheduled : r.downgradeAt = none) :
      Settles L a (some now) r { r with status := Cascade.climb r r.status } L
  /-- The record meets its tier's requirement again, leaves the queue and climbs. -/
  | canceled {now t : Timestamp} {r : Record} (met : r.status.metBy r = true)
      (scheduled : r.downgradeAt = some t) :
      Settles L a (some now) r
        { r with status := Cascade.climb r r.status, downgradeAt := none } (L.dequeue t a)
  /-- The record fails its tier's requirement and is in the queue already. -/
  | waiting {now t : Timestamp} {r : Record} (unmet : r.status.metBy r = false)
      (scheduled : r.downgradeAt = some t) : Settles L a (some now) r r L
  /-- The record fails its tier's requirement and joins the queue. -/
  | failing {now t : Timestamp} {r : Record} (unmet : r.status.metBy r = false)
      (unscheduled : r.downgradeAt = none)
      (later : now.add? (L.params.getD .default).gracePeriod = some t) :
      Settles L a (some now) r { r with downgradeAt := some t } (L.enqueue t a)

namespace Draft

/-- The draft after a record goes from one tier to another: a rise is told and is to be announced. -/
def rise (D : Draft) (a : AccountId) (before after : Status) : Draft :=
  if before < after then (D.tell (.statusUpdated a before after)).announce ⟨a, .statusUpdated⟩ else D

/-- Telling of a rise leaves the ledger as it is. -/
@[simp] theorem toLedger_rise (D : Draft) (a : AccountId) (before after : Status) :
    (D.rise a before after).toLedger = D.toLedger := by
  rw [rise]
  split <;> rfl

/-- Nothing is told of a tier that stays. -/
@[simp] theorem rise_self (D : Draft) (a : AccountId) (s : Status) : D.rise a s s = D := by
  rw [rise, if_neg (Status.lt_irrefl s)]

/-- **The outcome of a status check on a draft**: the record and the draft after it, with what is told and
what is to be announced. -/
inductive Refreshes (D : Draft) (a : AccountId) (now : Timestamp) : Record → Record → Draft → Prop
  /-- The record meets its tier's requirement and climbs. -/
  | met {r : Record} (met : r.status.metBy r = true) (unscheduled : r.downgradeAt = none) :
      Refreshes D a now r { r with status := Cascade.climb r r.status }
        (D.rise a r.status (Cascade.climb r r.status))
  /-- The record meets its tier's requirement again, leaves the queue and climbs. -/
  | canceled {t : Timestamp} {r : Record} (met : r.status.metBy r = true)
      (scheduled : r.downgradeAt = some t) :
      Refreshes D a now r { r with status := Cascade.climb r r.status, downgradeAt := none }
        (((D.withLedger (D.dequeue t a)).tell (.downgradeCanceled a)).rise a r.status
          (Cascade.climb r r.status))
  /-- The record fails its tier's requirement and is in the queue already. -/
  | waiting {t : Timestamp} {r : Record} (unmet : r.status.metBy r = false)
      (scheduled : r.downgradeAt = some t) : Refreshes D a now r r D
  /-- The record fails its tier's requirement and joins the queue. -/
  | failing {t : Timestamp} {r : Record} (unmet : r.status.metBy r = false)
      (unscheduled : r.downgradeAt = none)
      (later : now.add? (D.params.getD .default).gracePeriod = some t) :
      Refreshes D a now r { r with downgradeAt := some t }
        ((D.withLedger (D.enqueue t a)).tell (.willBeDowngraded a t))

end Draft

namespace Cascade

variable {now : Timestamp} {a : AccountId} {r r' : Record} {D D' : Draft}

/-! ### Climbing -/

/-- A record climbs from its tier or stays there. -/
theorem climb_eq_or_lt (r : Record) (s : Status) : climb r s = s ∨ s < climb r s := by
  rw [climb]
  rw [List.getLastD_eq_getLast?]
  cases h : ((Status.earned.filter fun t => s < t).takeWhile fun t => t.metBy r).getLast? with
  | none => exact .inl rfl
  | some t =>
      have hmem := List.takeWhile_prefix _ |>.subset (List.mem_of_getLast? h)
      exact .inr (of_decide_eq_true (List.mem_filter.mp hmem).2)

/-- **Promotion** puts the record at the tier it climbs to, and makes that known. -/
theorem yields_promote : (promote a r).Yields D r' D' ↔
    r' = { r with status := climb r r.status } ∧ D' = D.rise a r.status (climb r r.status) := by
  rw [promote, Draft.rise]
  split
  next => simp [yields_bind]
  next hnot =>
      have hstay : climb r r.status = r.status := (climb_eq_or_lt r r.status).resolve_right hnot
      rw [hstay]
      exact yields_done

/-! ### The cases of a status check -/

/-- A status check has one of the outcomes. -/
theorem refreshes_of_yields_refresh (h : (refresh now a r).Yields D r' D') :
    D.Refreshes a now r r' D' := by
  rw [refresh] at h
  split at h
  next hmet =>
      obtain ⟨r₁, D₁, hcancel, hpromote⟩ := yields_bind.mp h
      obtain ⟨rfl, rfl⟩ := yields_promote.mp hpromote
      rw [cancelDowngrade] at hcancel
      cases hr : r.downgradeAt with
      | none =>
          rw [hr] at hcancel
          obtain ⟨rfl, rfl⟩ := yields_done.mp hcancel
          exact .met hmet hr
      | some t =>
          rw [hr] at hcancel
          simp only [yields_bind, yields_dequeue, yields_tell, Dialogue.pure_def, yields_done]
            at hcancel
          obtain ⟨_, _, rfl, _, _, rfl, rfl, rfl⟩ := hcancel
          exact .canceled hmet hr
  next hunmet =>
      rw [Bool.not_eq_true] at hunmet
      rw [scheduleDowngrade] at h
      cases hr : r.downgradeAt with
      | some t =>
          rw [hr] at h
          obtain ⟨rfl, rfl⟩ := yields_done.mp h
          exact .waiting hunmet hr
      | none =>
          rw [hr] at h
          simp only [yields_bind, yields_params, yields_checked, yields_enqueue, yields_tell,
            Dialogue.pure_def, yields_done] at h
          obtain ⟨_, _, ⟨rfl, rfl⟩, t, _, ⟨ht, rfl⟩, _, _, rfl, _, _, rfl, rfl, rfl⟩ := h
          exact .failing hunmet hr ht

/-- Every outcome is that of a status check. -/
theorem yields_refresh_of_refreshes (h : D.Refreshes a now r r' D') :
    (refresh now a r).Yields D r' D' := by
  cases h with
  | met hmet hr =>
      have hcancel : (cancelDowngrade a r).Yields D r D := by
        rw [cancelDowngrade, hr]
        exact yields_done.mpr ⟨rfl, rfl⟩
      rw [refresh, if_pos hmet]
      exact yields_bind.mpr ⟨r, D, hcancel, yields_promote.mpr ⟨rfl, rfl⟩⟩
  | @canceled t _ hmet hr =>
      have hcancel : (cancelDowngrade a r).Yields D { r with downgradeAt := none }
          ((D.withLedger (D.dequeue t a)).tell (.downgradeCanceled a)) := by
        rw [cancelDowngrade, hr]
        exact yields_bind.mpr ⟨(), _, yields_dequeue.mpr rfl,
          yields_bind.mpr ⟨(), _, yields_tell.mpr rfl, yields_done.mpr ⟨rfl, rfl⟩⟩⟩
      rw [refresh, if_pos hmet]
      exact yields_bind.mpr ⟨_, _, hcancel, yields_promote.mpr ⟨rfl, rfl⟩⟩
  | waiting hunmet hr =>
      rw [refresh, if_neg (by simp [hunmet]), scheduleDowngrade, hr]
      exact yields_done.mpr ⟨rfl, rfl⟩
  | failing hunmet hr hlater =>
      rw [refresh, if_neg (by simp [hunmet]), scheduleDowngrade, hr]
      exact yields_bind.mpr ⟨_, _, yields_params.mpr ⟨rfl, rfl⟩,
        yields_bind.mpr ⟨_, _, yields_checked.mpr ⟨hlater, rfl⟩,
          yields_bind.mpr ⟨(), _, yields_enqueue.mpr rfl,
            yields_bind.mpr ⟨(), _, yields_tell.mpr rfl, yields_done.mpr ⟨rfl, rfl⟩⟩⟩⟩⟩

/-- **What a status check yields** is one of the outcomes. -/
theorem yields_refresh : (refresh now a r).Yields D r' D' ↔ D.Refreshes a now r r' D' :=
  ⟨refreshes_of_yields_refresh, yields_refresh_of_refreshes⟩

/-- **A status check has one of the outcomes** on the ledger. -/
theorem settles_of_yields_refresh (h : (refresh now a r).Yields D r' D') :
    D.toLedger.Settles a (some now) r r' D'.toLedger := by
  cases yields_refresh.mp h with
  | met hmet hr =>
      rw [Draft.toLedger_rise]
      exact .met hmet hr
  | canceled hmet hr =>
      rw [Draft.toLedger_rise]
      exact .canceled hmet hr
  | waiting hunmet hr => exact .waiting hunmet hr
  | failing hunmet hr hlater => exact .failing hunmet hr hlater

/-- The check of a changed record, if there is a time for it. -/
def check (checkAt : Option Timestamp) (a : AccountId) (r : Record) : Cascade Record :=
  match checkAt with
  | some now => refresh now a r
  | none => pure r

/-- A check has one of the outcomes. -/
theorem settles_of_yields_check {checkAt : Option Timestamp} {a : AccountId} {r r' : Record}
    {D D' : Draft} (h : (check checkAt a r).Yields D r' D') :
    D.toLedger.Settles a checkAt r r' D'.toLedger := by
  cases checkAt with
  | none =>
      obtain ⟨rfl, rfl⟩ := yields_done.mp h
      exact .unchecked
  | some now => exact settles_of_yields_refresh h

/-- **An update, step by step**: it finds no record and does nothing, or it changes the record it finds,
checks it if that is asked for, and puts it. -/
theorem steps_of_yields_update {β : Type} {checkAt : Option Timestamp} {a : AccountId}
    {change : Record → Cascade (β × Record)} {result : Option β} {D D' : Draft}
    (h : (update checkAt a change).Yields D result D') :
    (D.records.get? a = none ∧ result = none ∧ D' = D) ∨
      ∃ r b r₁ D₁ r₂ D₂, D.records.get? a = some r ∧ (change r.normalize).Yields D (b, r₁) D₁ ∧
        (check checkAt a r₁).Yields D₁ r₂ D₂ ∧ result = some b ∧
        D' = D₂.withLedger (D₂.toLedger.put a r₂) := by
  rw [update] at h
  obtain ⟨found, D₀, hload, hrest⟩ := yields_bind.mp h
  rw [yields_mapError, yields_load] at hload
  obtain ⟨hfound, rfl⟩ := hload
  cases hr : D₀.records.get? a with
  | none =>
      rw [hr] at hfound
      subst hfound
      obtain ⟨rfl, rfl⟩ := yields_done.mp hrest
      exact .inl ⟨rfl, rfl, rfl⟩
  | some r =>
      rw [hr] at hfound
      subst hfound
      refine .inr ?_
      obtain ⟨⟨b, r₁⟩, D₁, hchange, hrest⟩ := yields_bind.mp hrest
      rw [yields_mapError] at hchange
      cases checkAt with
      | none =>
          simp only [yields_bind, yields_put, Dialogue.pure_def, Dialogue.done_bind, yields_done]
            at hrest
          obtain ⟨_, _, rfl, rfl, rfl⟩ := hrest
          exact ⟨r, b, r₁, D₁, r₁, D₁, rfl, hchange, yields_done.mpr ⟨rfl, rfl⟩, rfl, rfl⟩
      | some now =>
          simp only [yields_bind, yields_mapError, yields_put, Dialogue.pure_def, yields_done]
            at hrest
          obtain ⟨r₂, D₂, hrefresh, _, _, rfl, rfl, rfl⟩ := hrest
          exact ⟨r, b, r₁, D₁, r₂, D₂, rfl, hchange, hrefresh, rfl, rfl⟩

/-- **An update** finds no record and does nothing, or it changes the record it finds, has it
settled if that is asked for, and puts it. -/
theorem yields_update {β : Type} {checkAt : Option Timestamp} {a : AccountId}
    {change : Record → Cascade (β × Record)} {result : Option β} {D D' : Draft}
    (h : (update checkAt a change).Yields D result D') :
    (D.records.get? a = none ∧ result = none ∧ D' = D) ∨
      ∃ r b r₁ D₁ r₂ L₂, D.records.get? a = some r ∧
        (change r.normalize).Yields D (b, r₁) D₁ ∧
        D₁.toLedger.Settles a checkAt r₁ r₂ L₂ ∧ result = some b ∧
        D'.toLedger = L₂.put a r₂ := by
  obtain hnone | ⟨r, b, r₁, D₁, r₂, D₂, hr, hchange, hcheck, hresult, rfl⟩ := steps_of_yields_update h
  · exact .inl hnone
  · exact .inr ⟨r, b, r₁, D₁, r₂, D₂.toLedger, hr, hchange, settles_of_yields_check hcheck, hresult, rfl⟩

end Cascade

/-! ### What settling leaves alone -/

namespace Ledger.Settles

variable {L L' : Ledger} {a : AccountId} {checkAt : Option Timestamp} {r r' : Record}

/-- Settling changes no record but the one given. -/
theorem records_eq (h : L.Settles a checkAt r r' L') : L'.records = L.records := by
  cases h <;> rfl

/-- Settling marks no referral. -/
theorem relations_eq (h : L.Settles a checkAt r r' L') : L'.relations = L.relations := by
  cases h <;> rfl

/-- Settling leaves the parameters. -/
theorem params_eq (h : L.Settles a checkAt r r' L') : L'.params = L.params := by
  cases h <;> rfl

/-- Settling changes at most the tier and the schedule of a record. -/
theorem exists_eq_update (h : L.Settles a checkAt r r' L') :
    ∃ s t, r' = { r with status := s, downgradeAt := t } := by
  cases h <;> exact ⟨_, _, rfl⟩

/-- Settling an account leaves the queue entries of others. -/
theorem mem_queue_of_ne (h : L.Settles a checkAt r r' L') {b : AccountId} (hb : b ≠ a)
    (t : Timestamp) : (t, b) ∈ L'.queue ↔ (t, b) ∈ L.queue := by
  have hne : ∀ u, (t, b) ≠ (u, a) := fun u e => hb (Prod.mk.inj e).2
  cases h with
  | canceled => exact and_iff_left (hne _)
  | failing => exact Set.mem_insert_iff.trans (or_iff_right (hne _))
  | _ => rfl

/-- **A record and its queue entry** go on agreeing when the record is settled. -/
theorem queue_iff (h : L.Settles a checkAt r r' L')
    (agree : ∀ t, (t, a) ∈ L.queue ↔ r.downgradeAt = some t) (t : Timestamp) :
    (t, a) ∈ L'.queue ↔ r'.downgradeAt = some t := by
  cases h with
  | canceled met scheduled =>
      have := agree t
      rw [scheduled, Option.some.injEq] at this
      simp only [Ledger.dequeue, Set.mem_sdiff, this, Set.mem_singleton_iff, Prod.mk.injEq, and_true]
      simp only [reduceCtorEq, iff_false, not_and, not_not]
      exact Eq.symm
  | failing unmet unscheduled later =>
      have := agree t
      rw [unscheduled] at this
      simp [Ledger.enqueue, this, eq_comm]
  | _ => exact agree t

end Ledger.Settles

/-! ### What settling leaves behind -/

/-- What the requirements of tiers look at. -/
def Record.measures (r : Record) : Amount × Amount × Tallies :=
  (r.selfStake, r.teamStake, r.tallies)

/-- Records with equal measures meet the same requirements. -/
theorem Status.metBy_congr {r r' : Record} (h : r'.measures = r.measures) (s : Status) :
    s.metBy r' = s.metBy r := by
  simp only [Record.measures, Prod.mk.injEq] at h
  obtain ⟨hself, hteam, htallies⟩ := h
  simp only [metBy, assess]
  cases s.requirement? with
  | none => rfl
  | some q => simp only [Option.map_some, Requirement.criteria, hself, hteam, htallies]

/-- **What a status check leaves behind.** A scheduled record fails its tier's requirement; an
unscheduled one meets it and fails that of the next tier. -/
structure Record.Climbed (r : Record) : Prop where
  /-- A scheduled record fails its tier's requirement. -/
  unmet : r.downgradeAt ≠ none → r.status.metBy r = false
  /-- An unscheduled record meets its tier's requirement. -/
  met : r.downgradeAt = none → r.status.metBy r = true
  /-- An unscheduled record fails the requirement of the next tier. -/
  stops : r.downgradeAt = none → ∀ t, r.status.next? = some t → t.metBy r = false

/-- Only the tier, the schedule and the measures of a record decide whether it has climbed. -/
theorem Record.Climbed.congr {r r' : Record} (h : r.Climbed) (hm : r'.measures = r.measures)
    (hs : r'.status = r.status) (hd : r'.downgradeAt = r.downgradeAt) : r'.Climbed where
  unmet := by rw [hd, hs, Status.metBy_congr hm]; exact h.unmet
  met := by rw [hd, hs, Status.metBy_congr hm]; exact h.met
  stops hnone t ht := by
    rw [Status.metBy_congr hm]
    exact h.stops (hd ▸ hnone) t (hs ▸ ht)

namespace Cascade

/-- Walking up a list of tiers, each next to the one before, ends below the first that fails. -/
theorem next_getLastD_takeWhile {p : Status → Bool} {l : List Status} {s : Status}
    (chain : List.IsChain (fun a b => a.next? = some b) (s :: l))
    (top : (l.getLastD s).next? = none) {t : Status}
    (h : ((l.takeWhile p).getLastD s).next? = some t) : p t = false := by
  induction l generalizing s with
  | nil =>
      rw [List.takeWhile_nil, top] at h
      contradiction
  | cons x rest ih =>
      obtain ⟨hx, hchain⟩ := List.isChain_cons_cons.mp chain
      cases hp : p x with
      | true =>
          rw [List.takeWhile_cons_of_pos hp, List.getLastD_cons] at h
          exact ih hchain (by rwa [List.getLastD_cons] at top) h
      | false =>
          rw [List.takeWhile_cons_of_neg (by simp [hp])] at h
          obtain rfl := Option.some.inj (hx.symm.trans h)
          exact hp

/-- A record fails the requirement of the tier next to the one it climbs to. -/
theorem metBy_next_climb (r : Record) (s : Status) {t : Status}
    (h : (climb r s).next? = some t) : t.metBy r = false := by
  refine next_getLastD_takeWhile ?_ ?_ h
  · cases s <;> decide
  · cases s <;> decide

/-- A record that meets a tier's requirement meets that of the tier it climbs to from there. -/
theorem metBy_climb {r : Record} {s : Status} (h : s.metBy r = true) :
    (climb r s).metBy r = true := by
  rw [climb]
  rw [List.getLastD_eq_getLast?]
  cases hlast : ((Status.earned.filter fun t => s < t).takeWhile fun t => t.metBy r).getLast? with
  | none => exact h
  | some t =>
      have := List.mem_takeWhile_imp (List.mem_of_getLast? hlast)
      exact this

end Cascade

/-- **A checked record has climbed** as far as it can. -/
theorem Ledger.Settles.climbed {L L' : Ledger} {a : AccountId} {now : Timestamp} {r r' : Record}
    (h : L.Settles a (some now) r r' L') : r'.Climbed := by
  have climbs : ∀ u : Option Timestamp, u = none → r.status.metBy r = true →
      Record.Climbed { r with status := Cascade.climb r r.status, downgradeAt := u } := by
    rintro u rfl hmet
    exact ⟨fun h => absurd rfl h, fun _ => Cascade.metBy_climb hmet,
      fun _ t ht => Cascade.metBy_next_climb r r.status ht⟩
  cases h with
  | met hmet hnone => exact climbs r.downgradeAt hnone hmet
  | canceled hmet hsome => exact climbs none rfl hmet
  | waiting hunmet hsome =>
      exact ⟨fun _ => hunmet, fun h => by simp [hsome] at h, fun h => by simp [hsome] at h⟩
  | failing hunmet hnone hlater =>
      exact ⟨fun _ => hunmet, fun h => by simp at h, fun h => by simp at h⟩

end ReferralForest

import ReferralForest.Proofs.Cascade.Courses
import ReferralForest.Proofs.Status.Measures

/-!
# Settled at Once

One status check is enough. Whatever record a change hands to it, the check ends with a record that
either waits for its downgrade or has climbed as far as it can, and checking that record again asks for
nothing at all: no queue entry, no notice, no event. This needs no forest, no order among the records and
no relation between a record's schedule and the queue, so it is said of all worlds and all changes.

The measures of a record decide which tiers it meets, and a check leaves them alone. That is why the
requirements that held when the record climbed still do, although the record is another one by then.

## Main definitions

* `Record.SettledFrom` — what a status check may make of a record.
* `Cascade.untouched` — the change that changes nothing.

## Main statements

* `Cascade.ends_refresh_settledFrom` — a status check ends with a settled record.
* `Cascade.refresh_of_climbed` — a settled record is left alone, and nothing is asked.
* `Cascade.run_update_eq_ok` — the phases of an update.
* `Cascade.update_settles` — an update that checks the status settles the record at once.
-/

namespace ReferralForest

/-- **What a status check may make of a record**: the result has climbed as far as it can or waits for its
downgrade, its tier is not lower, and only tier and schedule differ. -/
structure Record.SettledFrom (r r' : Record) : Prop where
  /-- The result has climbed, or waits for its downgrade. -/
  climbed : r'.Climbed
  /-- The tier is not lower. -/
  rises : r.status ≤ r'.status
  /-- Only tier and schedule differ. -/
  same : r' = { r with status := r'.status, downgradeAt := r'.downgradeAt }

namespace Cascade

variable {α β : Type} {now : Timestamp} {a : AccountId} {r r' : Record}

/-! ### One check -/

/-- A record that climbs, unscheduled. -/
theorem settledFrom_climb (met : r.status.metBy r = true) :
    r.SettledFrom { r with
      status := if r.status < climb r r.status then climb r r.status else r.status
      downgradeAt := none } := by
  have hreached : (if r.status < climb r r.status then climb r r.status else r.status) =
      climb r r.status := by
    split
    next => rfl
    next hnot => exact ((climb_eq_or_lt r r.status).resolve_right hnot).symm
  rw [hreached]
  refine ⟨⟨fun h => absurd rfl h, fun _ => metBy_climb met,
    fun _ _ ht => metBy_next_climb r r.status ht⟩, ?_, rfl⟩
  obtain heq | hlt := climb_eq_or_lt r r.status
  · exact Nat.le_of_eq (congrArg Status.rank heq.symm)
  · exact Nat.le_of_lt hlt

/-- A record that waits for its downgrade. -/
theorem settledFrom_wait (unmet : r.status.metBy r = false) (t : Timestamp) :
    r.SettledFrom { r with downgradeAt := some t } where
  climbed := ⟨fun _ => unmet, nofun, nofun⟩
  rises := Nat.le_refl _
  same := rfl

/-- **A status check ends with a settled record.** The schedule is no measure: without it the record climbs
to the same tier. -/
theorem ends_refresh_settledFrom (now : Timestamp) (a : AccountId) (r : Record) :
    (refresh now a r).Ends r.SettledFrom := by
  rw [refresh]
  split
  next met =>
      refine (ends_cancelDowngrade a r).bind ?_
      rintro _ rfl
      refine (ends_promote a _).mono ?_
      rintro _ rfl
      exact settledFrom_climb met
  next unmet =>
      refine (ends_scheduleDowngrade now a r).mono ?_
      rintro _ ⟨t, rfl⟩
      exact settledFrom_wait (Bool.eq_false_iff.mpr unmet) t

/-! ### Checking again -/

/-- **A settled record is left alone**, and nothing is asked. -/
theorem refresh_of_climbed (now : Timestamp) (a : AccountId) (h : r.Climbed) :
    refresh now a r = pure r := by
  rw [refresh]
  split
  next met =>
      have hnone : r.downgradeAt = none := by
        by_contra hsome
        rw [h.unmet hsome] at met
        contradiction
      have hstay : climb r r.status = r.status := climb_eq_self (h.stops hnone)
      rw [cancelDowngrade, hnone]
      change promote a r = pure r
      rw [promote, hstay, if_neg (Status.lt_irrefl _)]
  next unmet =>
      obtain ⟨t, ht⟩ := Option.ne_none_iff_exists'.mp fun hnone => unmet (h.met hnone)
      rw [scheduleDowngrade, ht]

/-- The change that changes nothing. -/
def untouched (r : Record) : Cascade (Unit × Record) := pure ((), r)

/-- **Updating a settled record that is being prepared**, without changing it, leaves the world as it
is. -/
theorem run_update_untouched {w : World} (found : w.batch.records.get? a = some r)
    (climbed : r.Climbed) (padded : generationCount ≤ r.generations.length) (now : Timestamp) :
    w.run (update (some now) a untouched).buffered = (.ok (some ()), w) := by
  have hload := (run_buffered_mapError_eq_ok_iff (Error.inUpdate a .load)).mpr
    (run_buffered_load_of_get? found)
  have hput := run_buffered_put w a r
  rw [SortedMap.insert_of_get? found] at hput
  rw [update, buffered_bind, World.run_bind_of_ok hload]
  dsimp only
  rw [Record.normalize_of_length padded]
  change w.run (buffered (Dialogue.mapError (Error.inUpdate a .statusCheck) (refresh now a r) >>=
    fun r => put a r >>= fun _ => pure (some ()))) = _
  rw [refresh_of_climbed now a climbed]
  change w.run (buffered (put a r >>= fun _ => pure (some ()))) = _
  rw [buffered_bind, World.run_bind_of_ok hput]
  rfl

/-! ### Updates -/

/-- **The phases of an update**: it ends if there is no record, or else the record is changed, checked and
put. -/
theorem run_update_eq_ok {w w' : World} {checkAt : Option Timestamp}
    {change : Record → Cascade (β × Record)} {x : Option β}
    (ran : w.run (update checkAt a change).buffered = (.ok x, w')) :
    ∃ loaded w₁, w.run (load a).buffered = (.ok loaded, w₁) ∧
      match loaded with
      | none => x = none ∧ w' = w₁
      | some found => ∃ y r w₂ r' w₃, w₁.run (change found.normalize).buffered = (.ok (y, r), w₂) ∧
          w₂.run (check checkAt a r).buffered = (.ok r', w₃) ∧
          w₃.run (put a r').buffered = (.ok (), w') ∧ x = some y := by
  rw [update, buffered_bind] at ran
  obtain ⟨loaded, w₁, hload, ran⟩ := World.run_bind_eq_ok_iff.mp ran
  rw [run_buffered_mapError_eq_ok_iff] at hload
  refine ⟨loaded, w₁, hload, ?_⟩
  cases loaded with
  | none =>
      obtain ⟨hx, rfl⟩ := Prod.mk.inj ran
      exact ⟨(Except.ok.inj hx).symm, rfl⟩
  | some found =>
      dsimp only at ran
      rw [buffered_bind] at ran
      obtain ⟨⟨y, r⟩, w₂, hchange, ran⟩ := World.run_bind_eq_ok_iff.mp ran
      rw [run_buffered_mapError_eq_ok_iff] at hchange
      have hrest : ∃ r' w₃, w₂.run (check checkAt a r).buffered = (.ok r', w₃) ∧
          w₃.run (buffered (put a r' >>= fun _ => pure (some y))) = (.ok x, w') := by
        cases checkAt with
        | none => exact ⟨r, w₂, rfl, ran⟩
        | some now =>
            dsimp only at ran
            rw [buffered_bind] at ran
            obtain ⟨r', w₃, hrefresh, ran⟩ := World.run_bind_eq_ok_iff.mp ran
            rw [run_buffered_mapError_eq_ok_iff] at hrefresh
            exact ⟨r', w₃, hrefresh, ran⟩
      obtain ⟨r', w₃, hcheck, ran⟩ := hrest
      rw [buffered_bind] at ran
      obtain ⟨_, w₄, hput, ran⟩ := World.run_bind_eq_ok_iff.mp ran
      obtain ⟨hx, rfl⟩ := Prod.mk.inj ran
      exact ⟨y, r, w₂, r', w₃, hchange, hcheck, hput, (Except.ok.inj hx).symm⟩

/-- **The phases of an update that checks the status**: the record is loaded, changed, settled and put. -/
theorem run_update_eq_ok_some {w w' : World} {change : Record → Cascade (β × Record)} {x : β}
    (ran : w.run (update (some now) a change).buffered = (.ok (some x), w')) :
    ∃ found w₁ r w₂ r' w₃, w.run (load a).buffered = (.ok (some found), w₁) ∧
      w₁.run (change found.normalize).buffered = (.ok (x, r), w₂) ∧
      w₂.run (refresh now a r).buffered = (.ok r', w₃) ∧
      w₃.run (put a r').buffered = (.ok (), w') := by
  obtain ⟨loaded, w₁, hload, hrest⟩ := run_update_eq_ok ran
  cases loaded with
  | none => exact nomatch hrest.1
  | some found =>
      obtain ⟨y, r, w₂, r', w₃, hchange, hcheck, hput, hx⟩ := hrest
      obtain rfl := Option.some.inj hx
      exact ⟨found, w₁, r, w₂, r', w₃, hload, hchange, hcheck, hput⟩

/-- **An update that checks the status settles the record at once**, in every world and for every change:
the buffered record is settled from the changed one, and unless the change has lost generation counts,
another check of it, at whatever time, leaves the world as it is. -/
theorem update_settles {w w' : World} {change : Record → Cascade (β × Record)} {x : β}
    (ran : w.run (update (some now) a change).buffered = (.ok (some x), w')) :
    ∃ found w₁ r w₂ r', w.run (load a).buffered = (.ok (some found), w₁) ∧
      w₁.run (change found.normalize).buffered = (.ok (x, r), w₂) ∧
      w'.batch.records.get? a = some r' ∧ r.SettledFrom r' ∧
      ∀ later, refresh later a r' = pure r' ∧
        (generationCount ≤ r.generations.length →
          w'.run (update (some later) a untouched).buffered = (.ok (some ()), w')) := by
  obtain ⟨found, w₁, r, w₂, r', w₃, hload, hchange, hrefresh, hput⟩ := run_update_eq_ok_some ran
  have hsettled : r.SettledFrom r' :=
    (ends_refresh_settledFrom now a r).of_run_buffered (aside_refresh now a r) hrefresh
  rw [run_buffered_put] at hput
  obtain rfl := (Prod.mk.inj hput).2
  have hget : (w₃.batch.records.insert a r').get? a = some r' := SortedMap.get?_insert_self _ a r'
  refine ⟨found, w₁, r, w₂, r', hload, hchange, hget, hsettled, fun later => ?_⟩
  refine ⟨refresh_of_climbed later a hsettled.climbed, fun padded => ?_⟩
  have hcounts : r'.generations = r.generations := by rw [hsettled.same]
  exact run_update_untouched hget hsettled.climbed (hcounts ▸ padded) later

/-! ### A small deposit -/

namespace SmallDeposit

/-- An account. -/
def saver : AccountId := ⟨"saver", by decide, by decide⟩

/-- A store in which it has the lowest tier and no stake. -/
def world : World :=
  .ofStore (.ofEntries (.ofList [((Slot.record saver).key, (Record.fresh none .new).encode)]))

/-- A deposit of what the second tier asks for. -/
def deposit (r : Record) : Cascade (Unit × Record) :=
  pure ((), { r with selfStake := ⟨100000000, by decide⟩ })

/-- The world once the deposit has been buffered. -/
def settled : World := (world.run (update (some ⟨10⟩) saver deposit).buffered).2

end SmallDeposit

open SmallDeposit in
/-- The deposit takes the account to the second tier, where it rests. -/
theorem update_settles_deposit :
    world.run (update (some ⟨10⟩) saver deposit).buffered = (.ok (some ()), settled) ∧
      (settled.batch.records.get? saver).map (·.status) = some .starter ∧
      ∀ later, settled.run (update (some later) saver untouched).buffered = (.ok (some ()), settled) := by
  have ran : world.run (update (some ⟨10⟩) saver deposit).buffered = (.ok (some ()), settled) :=
    Prod.ext (by decide +kernel) (by rw [settled])
  obtain ⟨found, _, r, _, _, -, hchange, -, -, hagain⟩ := update_settles ran
  have hr : { found.normalize with selfStake := ⟨100000000, by decide⟩ } = r :=
    congrArg Prod.snd (Except.ok.inj (Prod.mk.inj hchange).1)
  have padded : generationCount ≤ r.generations.length := hr ▸ found.length_normalize
  exact ⟨ran, by decide +kernel, fun later => (hagain later).2 padded⟩

end Cascade

end ReferralForest

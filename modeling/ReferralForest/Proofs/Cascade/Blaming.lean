import ReferralForest.Proofs.Cascade.Closure

/-!
# Why a Stake Change Fails

On a draft every step of a cascade succeeds, so a cascade fails only where it says so: where a quantity
leaves its range, or where there are more ancestors than there can be. The error names the account and
the phase around it, and still tells the quantity. What a cascade does above an account is never the
fault of the account's own stake; so if that is what a stake change fails for, the new stake is out of
range.

## Main definitions

* `Error.quantity?` — the quantity for which an operation fails.
* `Cascade.Spares` — the cascades that never fail for a quantity.
* `Cascade.quantitiesAbove` — what can leave its range besides the own stake.

## Main statements

* `Cascade.Spares.update` — an update never fails for a quantity that its change and its check spare.
* `Cascade.of_breaks_changeStake`, `Cascade.exists_breaks_changeStake` — when a stake change fails for
  the own stake.
-/

namespace ReferralForest

/-- **The quantity for which an operation fails**, whatever the record it is updating. A listener that
fails has reasons of its own. -/
def Error.quantity? : Error → Option String
  | overflow quantity => some quantity
  | update _ _ cause => cause.quantity?
  | _ => none

/-- Naming the account and the phase leaves the quantity. -/
@[simp] theorem Error.quantity?_inUpdate (a : AccountId) (phase : UpdatePhase) (e : Error) :
    (inUpdate a phase e).quantity? = e.quantity? := by
  rw [inUpdate]
  split <;> rfl

/-- A listener that fails leaves no quantity. -/
@[simp] theorem Error.quantity?_inCallback (target : Callback) (e : Error) :
    (inCallback target e).quantity? = none := by
  rw [inCallback]
  split
  next h => cases e <;> first | rfl | contradiction
  next => rfl

namespace Cascade

variable {α β : Type} {D D' : Draft} {e : Error}

/-- **The cascades that never fail for a quantity.** -/
def Spares (quantity : String) (c : Cascade α) : Prop :=
  ∀ D e D', c.Breaks D e D' → e.quantity? ≠ some quantity

variable {quantity : String}

/-- A cascade that is done does not fail. -/
theorem Spares.done (a : α) : Spares quantity (.done a) :=
  fun _ _ _ h => (breaks_done.mp h).elim

/-- A cascade that fails for something else. -/
theorem Spares.fail {e' : Error} (h : e'.quantity? ≠ some quantity) :
    Spares quantity (.fail e' : Cascade α) := by
  intro D e D' hbreaks
  rw [(breaks_fail.mp hbreaks).1]
  exact h

/-- One cascade after another spares a quantity if both do. -/
theorem Spares.bind {c : Cascade α} {f : α → Cascade β} (hc : c.Spares quantity)
    (hf : ∀ a, (f a).Spares quantity) : Spares quantity (c >>= f) := by
  intro D e D' h
  rcases breaks_bind.mp h with hfirst | ⟨a, D₁, -, hrest⟩
  · exact hc D e D' hfirst
  · exact hf a D₁ e D' hrest

/-- Naming the account and the phase makes no difference. -/
theorem Spares.inUpdate {c : Cascade α} (h : c.Spares quantity) (a : AccountId) (phase : UpdatePhase) :
    Spares quantity (c.mapError (Error.inUpdate a phase)) := by
  intro D e D' hbreaks
  obtain ⟨e₀, hc, rfl⟩ := breaks_mapError.mp hbreaks
  rw [Error.quantity?_inUpdate]
  exact h D e₀ D' hc

/-- A cascade that begins with a step, which never fails. -/
theorem Spares.ask {step : Step} {next : step.Answer → Cascade α}
    (h : ∀ (D : Draft) reply D', D.answer step = (.ok reply, D') → (next reply).Spares quantity) :
    Spares quantity (.ask step next) := by
  intro D e D' hbreaks
  obtain ⟨reply, D₁, hanswer⟩ := D.exists_answer_eq_ok step
  exact h D reply D₁ hanswer D₁ e D' ((breaks_ask hanswer).mp hbreaks)

/-- A single step. -/
theorem Spares.request (step : Step) : Spares quantity (.request step) :=
  .ask fun _ reply _ _ => .done reply

/-- Loading a record fails for no quantity. -/
theorem spares_load (a : AccountId) : (load a).Spares quantity := by
  refine .ask fun D reply D' h => ?_
  cases h
  exact .done _

/-- Reading the parameters fails for no quantity. -/
theorem spares_params : params.Spares quantity := by
  refine .ask fun D reply D' h => ?_
  cases h
  exact .done _

/-- Writing an entry into the queue fails for no quantity. -/
theorem spares_enqueue (t : Timestamp) (a : AccountId) : (enqueue t a).Spares quantity := by
  refine .ask fun D reply D' h => ?_
  cases h
  exact .done _

/-- Taking an entry off the queue fails for no quantity. -/
theorem spares_dequeue (t : Timestamp) (a : AccountId) : (dequeue t a).Spares quantity := by
  refine .ask fun D reply D' h => ?_
  cases h
  exact .done _

/-- What can leave its range beyond the own stake of the account whose stake changes. -/
def quantitiesAbove : List String := ["downgrade time", "team delegation", counterName, countName]

variable (hq : quantity ∉ quantitiesAbove)
include hq

/-- A check of another quantity. -/
theorem spares_checked {other : String} (hother : other ∈ quantitiesAbove) (o : Option α) :
    (checked other o).Spares quantity := by
  cases o with
  | none => exact .fail fun h => hq (Option.some.inj h ▸ hother)
  | some a => exact .done a

/-- A status check fails only for the time of a downgrade. -/
theorem spares_refresh (now : Timestamp) (a : AccountId) (r : Record) :
    (refresh now a r).Spares quantity := by
  rw [refresh]
  split
  · refine .bind ?_ fun r => ?_
    · rw [cancelDowngrade]
      split
      · exact .done _
      · exact .bind (spares_dequeue _ _) fun _ => .bind (.request _) fun _ => .done _
    · rw [promote]
      split
      · exact .bind (.request _) fun _ => .bind (.request _) fun _ => .done _
      · exact .done _
  · rw [scheduleDowngrade]
    split
    · exact .done _
    · refine .bind spares_params fun p => .bind (spares_checked hq (by decide) _) fun t => ?_
      exact .bind (spares_enqueue _ _) fun _ => .bind (.request _) fun _ => .done _

/-- **An update fails for what its change fails for**, if an update itself cannot fail for that: the status
check and the put that follow the change spare the quantity. -/
theorem breaks_update {checkAt : Option Timestamp} {a : AccountId}
    {change : Record → Cascade (β × Record)} (h : (update checkAt a change).Breaks D e D')
    (he : e.quantity? = some quantity) :
    ∃ r e₀, D.records.get? a = some r ∧ (change r.normalize).Breaks D e₀ D' ∧
      e = e₀.inUpdate a .mutate := by
  obtain hload | ⟨found, D₁, hload, hrest⟩ := breaks_bind.mp h
  · exact absurd he ((spares_load a).inUpdate a .load D e D' hload)
  · obtain ⟨rfl, rfl⟩ := yields_load.mp (yields_mapError.mp hload)
    cases hr : D₁.records.get? a with
    | none =>
        rw [hr] at hrest
        exact (breaks_done.mp hrest).elim
    | some r =>
        rw [hr] at hrest
        obtain hchange | ⟨changed, D₂, -, hrest⟩ := breaks_bind.mp hrest
        · obtain ⟨e₀, hmutate, rfl⟩ := breaks_mapError.mp hchange
          exact ⟨r, e₀, rfl, hmutate, rfl⟩
        · have hput : ∀ r, Spares quantity (put a r >>= fun _ => pure (some changed.1)) :=
            fun _ => .bind (.request _) fun _ => .done _
          cases checkAt with
          | none => exact absurd he (hput _ D₂ e D' hrest)
          | some now =>
              have hcheck := (spares_refresh hq now a changed.2).inUpdate a .statusCheck
              exact absurd he (hcheck.bind hput D₂ e D' hrest)

/-- **An update** never fails for what its change spares. -/
theorem Spares.update {checkAt : Option Timestamp} {a : AccountId}
    {change : Record → Cascade (β × Record)} (h : ∀ r, (change r).Spares quantity) :
    (update checkAt a change).Spares quantity := by
  intro D e D' hbreaks he
  obtain ⟨r, e₀, -, hchange, rfl⟩ := breaks_update hq hbreaks he
  exact h r.normalize D e₀ D' hchange ((Error.quantity?_inUpdate a .mutate e₀).symm.trans he)

/-- A change that checks one quantity. -/
theorem spares_checked_bind {other : String} (hother : other ∈ quantitiesAbove) {o : Option α}
    {result : α → β} : (checked other o >>= fun x => .done (result x) : Cascade β).Spares quantity :=
  .bind (spares_checked hq hother o) fun _ => .done _

/-- No adjustment of a record above fails for another quantity. -/
theorem Adjusts.spares {change : Record → Cascade (β × Record)} (h : Adjusts change) (r : Record) :
    (change r).Spares quantity := by
  cases h with
  | flipRecord active delta =>
      rw [Cascade.flipRecord]
      split
      · exact .done _
      · exact spares_checked_bind hq (by decide)
  | _ => exact spares_checked_bind hq (by decide)

/-- **Cascades made of adjustments** never fail for another quantity. -/
theorem closed_spares : Closed fun _ c => c.Spares quantity where
  done a := .done a
  bind hc hf := .bind hc hf
  announce _ := .request _
  cycle _ := .fail nofun
  adjust h _ _ := .update hq (h.spares hq)

omit hq

/-! ### Stake changes -/

variable {a : AccountId} {now : Timestamp} {delta : Int} {bound : Nat}

/-- The own stake of a record, if the new one is out of range. -/
theorem breaks_addSelfStake {r : Record} :
    (addSelfStake delta r).Breaks D e D' ↔
      r.selfStake.shift? delta = none ∧ e = .overflow "self delegation" ∧ D' = D := by
  rw [addSelfStake]
  cases r.selfStake.shift? delta with
  | none => exact breaks_fail.trans (and_iff_right rfl).symm
  | some stake => simp [checked]

/-- **Whatever a stake change fails for** that cannot leave its range above the account, is the own stake,
and the new one is out of range. Once the own stake is put, all that follows happens above the account or
counts. -/
theorem of_breaks_changeStake (hq : quantity ∉ quantitiesAbove)
    (h : (changeStake now a delta bound).Breaks D e D') (he : e.quantity? = some quantity) :
    e = .update a .mutate (.overflow "self delegation") ∧
      ∃ r, D.records.get? a = some r ∧ r.selfStake.shift? delta = none := by
  obtain hself | ⟨result, D₁, -, hrest⟩ := breaks_bind.mp h
  · obtain ⟨r, e₀, hr, hchange, rfl⟩ := breaks_update hq hself he
    obtain ⟨hstake, rfl, -⟩ := breaks_addSelfStake.mp hchange
    exact ⟨rfl, r, hr, hstake⟩
  · cases result with
    | none => exact (breaks_done.mp hrest).elim
    | some result =>
        obtain ⟨flip, parent⟩ := result
        have closed := closed_spares hq
        refine absurd he (closed.announce_if ?_ D₁ e D' hrest)
        refine closed.bind (closed.raiseTeams _ _ _ _) fun _ => ?_
        cases flip with
        | none => exact .done _
        | some active => exact closed.setActive _ _ _

/-- **A new stake out of range** is what a stake change fails for. -/
theorem exists_breaks_changeStake {r : Record} (found : D.records.get? a = some r)
    (excess : r.selfStake.shift? delta = none) : ∃ D', (changeStake now a delta bound).Breaks D
      (.update a .mutate (.overflow "self delegation")) D' := by
  refine ⟨D, breaks_bind.mpr (.inl ?_)⟩
  have hload : Yields ((load a).mapError (Error.inUpdate a .load)) D (some r) D :=
    yields_mapError.mpr (yields_load.mpr ⟨found.symm, rfl⟩)
  refine breaks_bind.mpr (.inr ⟨some r, D, hload, breaks_bind.mpr (.inl ?_)⟩)
  exact breaks_mapError.mpr ⟨_, breaks_addSelfStake.mpr ⟨excess, rfl, rfl⟩, rfl⟩

end Cascade

end ReferralForest

import ReferralForest.Proofs.Cascade.Blaming
import ReferralForest.Proofs.Cascade.Succeeding

/-!
# What Cascades Can Fail For

On a draft a cascade ends well, or it fails for a quantity that leaves its range. Which quantities those
can be on a given draft is a property that passes from the parts of a cascade to the whole: each part
either cannot fail, since what it arrives at fits, or fails for a quantity that is accounted for.

## Main definitions

* `Cascade.FailsFor` — a cascade fails on a draft only for certain quantities.

## Main statements

* `Cascade.exists_yields_or_breaks` — a cascade ends well, or it fails.
* `Cascade.FailsFor.update` — an update fails for what its change or its check fails for.
-/

namespace ReferralForest.Cascade

variable {α β : Type} {D D' : Draft} {Q : String → Prop}

/-- A cascade ends well, or it fails. -/
theorem exists_yields_or_breaks (c : Cascade α) (D : Draft) :
    (∃ a D', c.Yields D a D') ∨ ∃ e D', c.Breaks D e D' := by
  cases h : c.runWith (fun step D => D.answer step) D with
  | mk result D' =>
      cases result with
      | ok a => exact .inl ⟨a, D', h⟩
      | error e => exact .inr ⟨e, D', h⟩

/-- **A cascade fails on a draft only for certain quantities.** -/
def FailsFor (c : Cascade α) (D : Draft) (Q : String → Prop) : Prop :=
  ∀ e D', c.Breaks D e D' → ∃ quantity, e.quantity? = some quantity ∧ Q quantity

namespace FailsFor

/-- A cascade that ends well does not fail. -/
theorem of_yields {c : Cascade α} {a : α} (h : c.Yields D a D') : c.FailsFor D Q := by
  intro e D₁ hbreaks
  have hresult := h.symm.trans hbreaks
  simp at hresult

/-- A cascade that is done fails for nothing. -/
theorem done (a : α) : FailsFor (.done a) D Q := of_yields (yields_done.mpr ⟨rfl, rfl⟩)

/-- One cascade after another. -/
theorem bind {c : Cascade α} {f : α → Cascade β} (hc : c.FailsFor D Q)
    (hf : ∀ a D₁, c.Yields D a D₁ → (f a).FailsFor D₁ Q) : (c >>= f).FailsFor D Q := by
  intro e D' h
  obtain hfirst | ⟨a, D₁, hyields, hrest⟩ := breaks_bind.mp h
  · exact hc e D' hfirst
  · exact hf a D₁ hyields e D' hrest

/-- Naming the account and the phase makes no difference. -/
theorem inUpdate {c : Cascade α} (h : c.FailsFor D Q) (a : AccountId) (phase : UpdatePhase) :
    FailsFor (c.mapError (Error.inUpdate a phase)) D Q := by
  intro e D' hbreaks
  obtain ⟨e₀, hc, rfl⟩ := breaks_mapError.mp hbreaks
  rw [Error.quantity?_inUpdate]
  exact h e₀ D' hc

/-- A check fails for its quantity, if there is no value. -/
theorem checked {quantity : String} {o : Option α} (h : o = none → Q quantity) :
    (checked quantity o).FailsFor D Q := by
  cases o with
  | none =>
      intro e D' hbreaks
      obtain ⟨rfl, -⟩ := breaks_fail.mp hbreaks
      exact ⟨quantity, rfl, h rfl⟩
  | some a => exact done a

/-- A change that checks one quantity. -/
theorem checked_bind {quantity : String} {o : Option α} {result : α → β} (h : o = none → Q quantity) :
    FailsFor (Cascade.checked quantity o >>= fun x => .done (result x)) D Q :=
  bind (checked h) fun _ _ _ => done _

/-- An event announced on a condition makes no difference. -/
theorem announce_if {p : Prop} [Decidable p] {a : AccountId} {event : Event}
    {rest : Unit → Cascade β}
    (h : ∀ D₁ : Draft, D₁.toLedger = D.toLedger → (rest ()).FailsFor D₁ Q) :
    FailsFor (if p then announce a event >>= rest else rest ()) D Q := by
  split
  · refine bind (of_yields (a := ()) (yields_announce.mpr rfl)) fun _ D₁ hannounce => ?_
    obtain rfl := yields_announce.mp hannounce
    exact h _ rfl
  · exact h D rfl

/-- **A status check** fails only if the time of a notice cannot be told. -/
theorem refresh {now : Timestamp} {a : AccountId} {r : Record}
    (notice : ¬ D.Timely now → Q "downgrade time") : (refresh now a r).FailsFor D Q := by
  by_cases hcheckable : D.Timely now ∨ r.Held
  · obtain ⟨r', D', hyields⟩ := exists_yields_refresh (a := a) hcheckable
    exact of_yields hyields
  · obtain ⟨hlate, hheld⟩ := not_or.mp hcheckable
    obtain ⟨hnone, hunmet⟩ := Classical.not_imp.mp hheld
    rw [Cascade.refresh, if_neg hunmet, scheduleDowngrade, hnone]
    refine bind (of_yields (yields_params.mpr ⟨rfl, rfl⟩)) fun p D₁ hparams => ?_
    obtain ⟨rfl, rfl⟩ := yields_params.mp hparams
    refine bind (checked fun _ => notice hlate) fun t D₂ hchecked => ?_
    exact absurd ⟨t, (yields_checked.mp hchecked).1⟩ hlate

/-- **An update** fails for what its change fails for, or for the time of a notice if its check does. -/
theorem update {R : Record → Record → Prop} {checkAt : Option Timestamp} {a : AccountId}
    {change : Record → Cascade (β × Record)} (full : Roster.Full D.records) (plain : Plain R change)
    (notice : ∀ now, checkAt = some now → ¬ D.Timely now → Q "downgrade time")
    (changes : ∀ r, D.records.get? a = some r → (change r).FailsFor D Q) :
    (update checkAt a change).FailsFor D Q := by
  have hload : FailsFor ((load a).mapError (Error.inUpdate a .load)) D Q :=
    of_yields (yields_mapError.mpr (yields_load.mpr ⟨rfl, rfl⟩))
  refine bind hload fun found D₁ hfound => ?_
  obtain ⟨rfl, rfl⟩ := yields_load.mp (yields_mapError.mp hfound)
  cases hr : D₁.records.get? a with
  | none => exact done none
  | some r =>
      have hchange := (changes r hr).inUpdate a .mutate
      rw [← Record.normalize_of_length (full a r hr).ge] at hchange
      refine bind hchange fun changed D₂ hchanged => ?_
      obtain ⟨hledger, -, -⟩ := plain D₁ _ changed.1 changed.2 D₂ (yields_mapError.mp hchanged)
      have hput : ∀ r D₃, FailsFor (put a r >>= fun _ => .done (some changed.1)) D₃ Q :=
        fun r D₃ => bind (of_yields (a := ()) (yields_put.mpr rfl)) fun _ _ _ => done _
      cases checkAt with
      | none => exact hput _ D₂
      | some now =>
          have hcheck : FailsFor (Cascade.refresh now a changed.2) D₂ Q :=
            refresh fun hlate => notice now rfl (hledger ▸ hlate)
          exact bind (hcheck.inUpdate a .statusCheck) fun r D₃ _ => hput r D₃

end FailsFor

end ReferralForest.Cascade

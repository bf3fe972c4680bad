import ReferralForest.Forest.Downgrades
import ReferralForest.Forest.Snapshot
import ReferralForest.Forest.Visit
import ReferralForest.Proofs.Cascade.Closure
import ReferralForest.Proofs.Program.Orderly

/-!
# Orderly Cascades

A cascade sees a refusal of the store as the answer to one of its steps, several of its own updates
deep. It hands a fatal one through: an update says at which account and in which phase it failed,
except for errors that must reach the outside as they are. A cascade that does so is an orderly program
when it is carried out.

## Main statements

* `Cascade.orderly_update` — updates hand fatal refusals through.
* `Cascade.Orderly.commit` — orderly cascades are orderly programs.
* `Cascade.orderly_register`, `Cascade.orderly_changeStake`, `Cascade.orderly_downgrade`,
  `Cascade.orderly_importDowngrades`, `Cascade.orderly_visit` — the cascades of the forest are orderly.
-/

namespace ReferralForest

namespace Cascade

open Dialogue (heeds_ofExcept heeds_request_bind)

variable {α β : Type}

/-- The error of an answer that must reach the outside as it is. -/
def Step.fatal? : (step : Step) → step.Answer → Option Error
  | load _, answer => Error.fatal? answer
  | params, answer => Error.fatal? answer
  | enqueue .., answer | dequeue .., answer | relate .., answer => Error.fatal? answer
  | put .., _ | announce _, _ | tell _, _ => none

/-- What must reach the outside as it is, is fatal. -/
theorem Step.isFatal_of_fatal? {step : Step} {answer : step.Answer} {e : Error}
    (h : step.fatal? answer = some e) : e.isFatal = true := by
  cases step with
  | load | params | enqueue | dequeue | relate => exact (Error.fatal?_eq_some_iff.mp h).2
  | put | announce | tell => cases h

/-- **The orderly cascades** end with a fatal refusal as soon as they meet it. -/
def Orderly (c : Cascade α) : Prop := c.Heeds (fun _ => True) Step.fatal?

namespace Orderly

/-- One orderly cascade after another is orderly. -/
theorem bind {c : Cascade α} {f : α → Cascade β} (hc : c.Orderly) (hf : ∀ a, (f a).Orderly) :
    Orderly (c >>= f) :=
  Dialogue.Heeds.bind hc hf

/-- Saying where an update failed. -/
theorem inUpdate {c : Cascade α} (hc : c.Orderly) (a : AccountId) (phase : UpdatePhase) :
    Orderly (c.mapError (Error.inUpdate a phase)) :=
  Dialogue.Heeds.mapError hc fun _ _ _ he =>
    Error.inUpdate_of_isFatal (Step.isFatal_of_fatal? he) a phase

end Orderly

/-! ### Steps -/

/-- A refusal that is handed on fails with its own error. -/
theorem ofExcept_of_fatal {answer : Except Error α} {e : Error} (h : Error.fatal? answer = some e) :
    (.ofExcept answer : Cascade α) = .fail e := by
  rw [(Error.fatal?_eq_some_iff.mp h).1]
  rfl

/-- A cascade that is done is orderly. -/
theorem orderly_pure (a : α) : Orderly (pure a) := trivial

/-- A refusal to load a record ends a cascade. -/
theorem orderly_load (a : AccountId) : (load a).Orderly :=
  heeds_request_bind trivial heeds_ofExcept fun _ _ => ofExcept_of_fatal

/-- Putting a record is never refused. -/
theorem orderly_put (a : AccountId) (r : Record) : (put a r).Orderly :=
  ⟨trivial, fun _ => ⟨trivial, nofun⟩⟩

/-- Announcing an event is never refused. -/
theorem orderly_announce (a : AccountId) (event : Event) : (announce a event).Orderly :=
  ⟨trivial, fun _ => ⟨trivial, nofun⟩⟩

/-- Telling a notice is never refused. -/
theorem orderly_tell (n : Notice) : (tell n).Orderly := ⟨trivial, fun _ => ⟨trivial, nofun⟩⟩

/-- A refusal to read the parameters ends a cascade. -/
theorem orderly_params : params.Orderly :=
  heeds_request_bind trivial heeds_ofExcept fun _ _ => ofExcept_of_fatal

/-- A refusal to write an entry into the queue ends a cascade. -/
theorem orderly_enqueue (t : Timestamp) (a : AccountId) : (enqueue t a).Orderly :=
  heeds_request_bind trivial heeds_ofExcept fun _ _ => ofExcept_of_fatal

/-- A refusal to take an entry off the queue ends a cascade. -/
theorem orderly_dequeue (t : Timestamp) (a : AccountId) : (dequeue t a).Orderly :=
  heeds_request_bind trivial heeds_ofExcept fun _ _ => ofExcept_of_fatal

/-- A refusal to mark a relation ends a cascade. -/
theorem orderly_relate (p c : AccountId) : (relate p c).Orderly :=
  heeds_request_bind trivial heeds_ofExcept fun _ _ => ofExcept_of_fatal

/-- Checking a quantity asks nobody. -/
theorem orderly_checked (quantity : String) (x : Option α) : (checked quantity x).Orderly := by
  cases x <;> trivial

/-! ### Updates -/

/-- Scheduling the loss of a tier is orderly. -/
theorem orderly_scheduleDowngrade (now : Timestamp) (a : AccountId) (r : Record) :
    (scheduleDowngrade now a r).Orderly := by
  rw [scheduleDowngrade]
  split
  · trivial
  · refine orderly_params.bind fun p => ?_
    refine (orderly_checked _ _).bind fun time => ?_
    exact (orderly_enqueue time a).bind fun _ => (orderly_tell _).bind fun _ => trivial

/-- Cancelling the loss of a tier is orderly. -/
theorem orderly_cancelDowngrade (a : AccountId) (r : Record) : (cancelDowngrade a r).Orderly := by
  rw [cancelDowngrade]
  split
  · trivial
  · exact (orderly_dequeue _ a).bind fun _ => (orderly_tell _).bind fun _ => trivial

/-- Climbing is orderly. -/
theorem orderly_promote (a : AccountId) (r : Record) : (promote a r).Orderly := by
  simp only [promote]
  split
  · exact (orderly_tell _).bind fun _ => (orderly_announce a _).bind fun _ => trivial
  · trivial

/-- A status check is orderly. -/
theorem orderly_refresh (now : Timestamp) (a : AccountId) (r : Record) :
    (refresh now a r).Orderly := by
  rw [refresh]
  split
  · exact (orderly_cancelDowngrade a r).bind fun r => orderly_promote a r
  · exact orderly_scheduleDowngrade now a r

/-- **Updates** hand fatal refusals through, in whatever phase they meet them. -/
theorem orderly_update (checkAt : Option Timestamp) (a : AccountId)
    {change : Record → Cascade (β × Record)} (h : ∀ r, (change r).Orderly) :
    (update checkAt a change).Orderly := by
  refine ((orderly_load a).inUpdate a .load).bind fun found => ?_
  cases found with
  | none => trivial
  | some r =>
      refine ((h _).inUpdate a .mutate).bind ?_
      rintro ⟨result, r⟩
      cases checkAt with
      | none => exact (orderly_put a r).bind fun _ => trivial
      | some now =>
          refine ((orderly_refresh now a r).inUpdate a .statusCheck).bind fun r => ?_
          exact (orderly_put a r).bind fun _ => trivial

/-! ### Activity and stakes -/

/-- A change that checks one quantity. -/
theorem orderly_checked_bind {quantity : String} {x : Option α} {result : α → β} :
    (checked quantity x >>= fun a => .done (result a) : Cascade β).Orderly :=
  (orderly_checked _ _).bind fun _ => trivial

/-- Adjustments of a record are orderly. -/
theorem Adjusts.orderly {change : Record → Cascade (β × Record)} (h : Adjusts change) (r : Record) :
    (change r).Orderly := by
  cases h with
  | flipRecord active delta =>
      rw [Cascade.flipRecord]
      split
      · trivial
      · exact orderly_checked_bind
  | _ => exact orderly_checked_bind

/-- **Cascades made of adjustments** are orderly. -/
theorem closed_orderly : Closed fun _ c => c.Orderly where
  done _ := trivial
  bind hc hf := hc.bind hf
  announce a := orderly_announce a .stakeChanged
  cycle _ := trivial
  adjust h checkAt a := orderly_update checkAt a h.orderly

/-- **Making an account active or inactive** is orderly. -/
theorem orderly_setActive (checkAt : Option Timestamp) (a : AccountId) (active : Bool) :
    (setActive checkAt a active).Orderly :=
  closed_orderly.setActive checkAt a active

/-- **A stake change** is orderly. -/
theorem orderly_changeStake (now : Timestamp) (a : AccountId) (delta : Int) (bound : Nat) :
    (changeStake now a delta bound).Orderly :=
  closed_orderly.changeStake bound (orderly_update (some now) a fun _ => orderly_checked_bind)

/-! ### The cascades of the forest -/

/-- Settling an account is orderly. -/
theorem orderly_touch (now : Timestamp) (a : AccountId) : (touch now a).Orderly :=
  Dialogue.Heeds.map (orderly_update (some now) a fun r => orderly_pure (r.referrer, r)) _

/-- Settling the ancestors of an account is orderly. -/
theorem orderly_touchAncestors (now : Timestamp) (levels : Nat) (start : Option AccountId) :
    (touchAncestors now levels start).Orderly := by
  induction levels generalizing start with
  | zero => trivial
  | succ levels ih =>
      cases start with
      | none => trivial
      | some ancestor =>
          refine (orderly_touch now ancestor).bind fun parent => ?_
          exact (orderly_announce ancestor _).bind fun _ => ih parent

/-- **Registering a referral** is orderly. -/
theorem orderly_register (now : Timestamp) (p c : AccountId) : (register now p c).Orderly := by
  refine (orderly_put c _).bind fun _ => ?_
  refine (orderly_touch now p).bind fun grandparent => ?_
  refine (orderly_relate p c).bind fun _ => ?_
  exact (orderly_announce p _).bind fun _ => orderly_touchAncestors now _ grandparent

/-- Lowering the tier of a record is orderly. -/
theorem orderly_lower (now : Timestamp) (a : AccountId) (r : Record) :
    (lower now a r).Orderly := by
  rw [lower]
  split
  · trivial
  · split
    · trivial
    · split
      · trivial
      · exact (orderly_tell _).bind fun _ => trivial

/-- **A downgrade** is orderly. -/
theorem orderly_downgrade (now : Timestamp) (a : AccountId) : (downgrade now a).Orderly := by
  refine (orderly_update (some now) a (orderly_lower now a)).bind fun lowered => ?_
  split
  · exact orderly_announce a _
  · trivial

/-- **Reading in scheduled downgrades** is orderly. -/
theorem orderly_importDowngrades (host : Host) (l : List PendingDowngrade) :
    (importDowngrades host l).Orderly := by
  induction l with
  | nil => trivial
  | cons d rest ih =>
      refine Orderly.bind (heeds_ofExcept _) fun a => ?_
      refine (orderly_update none a fun r => ?_).bind fun _ => ih
      cases hr : r.downgradeAt with
      | none => exact (orderly_enqueue d.time a).bind fun _ => trivial
      | some previous =>
          exact (orderly_dequeue previous a).bind fun _ =>
            (orderly_enqueue d.time a).bind fun _ => trivial

/-- **Showing records to a visitor** is orderly, whatever he does with them. -/
theorem orderly_visit {σ : Type} (now : Timestamp)
    (visitor : σ → AccountId → Record → σ × Visit) (s : σ) (l : List (AccountId × Record)) :
    (visit now visitor s l).Orderly := by
  induction l generalizing s with
  | nil => trivial
  | cons entry rest ih =>
      obtain ⟨a, r⟩ := entry
      rw [visit]
      dsimp only
      split
      · exact Orderly.bind (orderly_update _ a fun _ => trivial) fun _ => ih _
      · exact ih _

/-! ### As programs -/

/-- What a step is served with: what it looks up or writes itself, and how that ended. -/
theorem orderly_serve_bind (step : Step) {f : step.Answer → Program α} (hf : ∀ x, (f x).Orderly)
    (ends : ∀ x e, step.fatal? x = some e → f x = .fail e) : Program.Orderly (step.serve >>= f) := by
  have hattempt : ∀ {β : Type} {p : Program β} {g : Except Error β → Program α}, p.Orderly →
      (∀ x, (g x).Orderly) → (∀ e : Error, e.isFatal = true → g (.error e) = .fail e) →
      Program.Orderly (p.attempt >>= g) := fun hp hg hends =>
    Dialogue.Heeds.attempt_bind hp hg fun _ _ e he => hends e (Call.isFatal_of_fatal? he)
  have hfail : ∀ {β : Type} {g : Except Error β → Program α},
      (∀ x e, Error.fatal? x = some e → g x = .fail e) →
      ∀ e : Error, e.isFatal = true → g (.error e) = .fail e := fun h e he =>
    h _ e (Error.fatal?_eq_some_iff.mpr ⟨rfl, he⟩)
  cases step with
  | load a =>
      rw [Step.serve, Dialogue.bind_bind]
      refine Dialogue.Heeds.bind Program.orderly_batch fun batch => ?_
      cases batch.records.get? a with
      | some r => exact hf (.ok (some r))
      | none => exact hattempt (Program.orderly_record? a) hf (hfail ends)
  | put a r =>
      exact ⟨trivial, fun _ => ⟨⟨trivial, fun _ => ⟨hf (), nofun⟩⟩, nofun⟩⟩
  | announce callback =>
      exact ⟨trivial, fun _ => ⟨⟨trivial, fun _ => ⟨hf (), nofun⟩⟩, nofun⟩⟩
  | tell n => exact ⟨trivial, fun _ => ⟨hf (), nofun⟩⟩
  | params => exact hattempt Program.orderly_params hf (hfail ends)
  | enqueue t a => exact hattempt (Program.orderly_schedule t a) hf (hfail ends)
  | dequeue t a => exact hattempt (Program.orderly_unschedule t a) hf (hfail ends)
  | relate p c => exact hattempt (Program.orderly_write (Slot.key_ne_nil _)) hf (hfail ends)

/-- **Orderly cascades are orderly programs**, step by step. -/
theorem Orderly.buffered {c : Cascade α} (hc : c.Orderly) : Program.Orderly c.buffered := by
  induction c with
  | done a => trivial
  | fail e => trivial
  | ask step next ih =>
      refine orderly_serve_bind step (fun x => ih x (hc.2 x).1) fun x e he => ?_
      rw [(hc.2 x).2 e he]
      rfl

/-- A refusal to write a buffered record ends the writing. -/
theorem orderly_writeAll (l : List (AccountId × Record)) : (writeAll l).Orderly := by
  induction l with
  | nil => trivial
  | cons entry rest ih => exact Dialogue.Heeds.bind (Program.orderly_setRecord _ _) fun _ => ih

/-- A refusal met by a listener ends the announcing, if listeners leave the store alone. -/
theorem orderly_announceAll {host : Host} (aloof : host.Aloof) (l : List (Callback × Unit)) :
    (announceAll host l).Orderly := by
  induction l with
  | nil => trivial
  | cons entry rest ih => exact Dialogue.Heeds.bind (aloof.orderly_announce entry.1) fun _ => ih

/-- The end of a cascade is orderly, if listeners leave the store alone. -/
theorem orderly_flush {host : Host} (aloof : host.Aloof) : (flush host).Orderly := by
  refine Dialogue.Heeds.bind Program.orderly_batch fun batch => ?_
  refine Dialogue.Heeds.bind (Program.orderly_keep _) fun _ => ?_
  exact Dialogue.Heeds.bind (orderly_writeAll _) fun _ => orderly_announceAll aloof _

/-- **Carrying out an orderly cascade** is an orderly program. -/
theorem Orderly.commit {c : Cascade α} (hc : c.Orderly) {host : Host} (aloof : host.Aloof) :
    Program.Orderly (c.commit host) := by
  refine Dialogue.Heeds.bind (Program.orderly_keep _) fun _ => ?_
  refine Dialogue.Heeds.bind hc.buffered fun _ => ?_
  exact Dialogue.Heeds.bind (orderly_flush aloof) fun _ => trivial

end Cascade

end ReferralForest

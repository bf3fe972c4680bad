import ReferralForest.Proofs.Ledger.Telling

/-!
# Programs of which Nothing is Heard

A cascade that neither tells nor announces anything has nothing to say to the listeners of the host that
carries it out. Its batch of events stays empty, whatever the store answers and wherever it may fail, so
it runs alike under all hosts and leaves the log alone. Programs put together from such cascades and
from calls on the store do so too.

## Main definitions

* `Call.plain` — the calls that leave log and batch as they are.
* `Cascade.Step.muted` — the steps that neither tell nor announce.
* `Program.Unheard` — two programs that run alike and leave the log as it is.

## Main statements

* `Cascade.unheard_commit` — a muted cascade is carried out alike by all hosts, and unheard.
-/

namespace ReferralForest

/-! ### Calls on the store -/

/-- Whether a call leaves the log and the batch as they are. -/
def Call.plain : Call → Bool
  | .tell _ | .keep _ => false
  | _ => true

namespace Program

/-- The programs that leave the log and the batch as they are. -/
def Plain {α : Type} (p : Program α) : Prop := p.Only fun call => call.plain = true

variable {α : Type}

/-- A value at hand is had without a call. -/
theorem plain_ofExcept (x : Except Error α) : Plain (.ofExcept x) := Dialogue.only_ofExcept _ x

/-- Looking a key up is plain. -/
theorem plain_get (key : Key) : (get key).Plain :=
  Dialogue.Only.bind ⟨rfl, fun _ => trivial⟩ fun _ => plain_ofExcept _

/-- A write is plain. -/
theorem plain_write (w : Store.Write) : (write w).Plain :=
  Dialogue.Only.bind ⟨rfl, fun _ => trivial⟩ fun _ => plain_ofExcept _

/-- Asking for an account is plain. -/
theorem plain_hasRecord (a : AccountId) : (hasRecord a).Plain :=
  Dialogue.Only.bind (plain_get _) fun _ => trivial

/-- Reading a record is plain. -/
theorem plain_record? (a : AccountId) : (record? a).Plain := by
  refine Dialogue.Only.bind (plain_get _) fun found => ?_
  cases found with
  | none => trivial
  | some bytes => exact Dialogue.Only.bind (plain_ofExcept _) fun _ => trivial

/-- Reading the parameters is plain. -/
theorem plain_params : params.Plain := by
  refine Dialogue.Only.bind (plain_get _) fun found => ?_
  cases found with
  | none => trivial
  | some bytes => exact plain_ofExcept _

/-- Setting the parameters is plain. -/
theorem plain_setParams (p : Params) : (setParams p).Plain :=
  Dialogue.Only.bind (plain_ofExcept _) fun _ => plain_write _

/-- **A plain program** leaves the batch and the log as they are. -/
theorem Plain.run {p : Program α} (hp : p.Plain) (w : World) :
    (w.run p).2.batch = w.batch ∧ (w.run p).2.log = w.log := by
  refine Dialogue.Only.runWith (I := fun v : World => v.batch = w.batch ∧ v.log = w.log)
    (fun call v hcall hv => ?_) hp ⟨rfl, rfl⟩
  cases call with
  | tell entry => contradiction
  | keep batch => contradiction
  | _ => exact hv

/-! ### Programs that run alike -/

/-- **Two programs of which nothing is heard**: they run alike in every world, and leave its log as it
is. -/
def Unheard (p q : Program α) : Prop := ∀ w : World, w.run p = w.run q ∧ (w.run p).2.log = w.log

variable {β : Type}

/-- Nothing is heard of a plain program. -/
theorem Plain.unheard {p : Program α} (hp : p.Plain) : p.Unheard p := fun w => ⟨rfl, (hp.run w).2⟩

/-- One program after another. -/
theorem Unheard.bind {p q : Program β} {f g : β → Program α} (hp : p.Unheard q)
    (hf : ∀ b, (f b).Unheard (g b)) : (p >>= f).Unheard (q >>= g) := by
  intro w
  obtain ⟨hsame, hlog⟩ := hp w
  cases hrun : w.run p with
  | mk result w₁ =>
      rw [hrun] at hsame hlog
      cases result with
      | error e =>
          rw [World.run_bind_of_error hrun, World.run_bind_of_error hsame.symm]
          exact ⟨rfl, hlog⟩
      | ok b =>
          rw [World.run_bind_of_ok hrun, World.run_bind_of_ok hsame.symm]
          exact ⟨(hf b w₁).1, (hf b w₁).2.trans hlog⟩

end Program

/-! ### Cascades -/

namespace Cascade

variable {α : Type} {c : Cascade α}

/-- Whether a step neither tells nor announces. -/
def Step.muted : Step → Bool
  | .announce _ | .tell _ => false
  | _ => true

/-- The cascades that neither tell nor announce. -/
def Muted (c : Cascade α) : Prop := c.Only fun step => step.muted = true

/-- Loading a record is muted. -/
theorem muted_load (a : AccountId) : (load a).Muted :=
  Dialogue.Only.bind ⟨rfl, fun _ => trivial⟩ fun _ => Dialogue.only_ofExcept _ _

/-- Putting a record is muted. -/
theorem muted_put (a : AccountId) (r : Record) : (put a r).Muted := ⟨rfl, fun _ => trivial⟩

/-- Writing an entry into the queue is muted. -/
theorem muted_enqueue (t : Timestamp) (a : AccountId) : (enqueue t a).Muted :=
  Dialogue.Only.bind ⟨rfl, fun _ => trivial⟩ fun _ => Dialogue.only_ofExcept _ _

/-- Taking an entry off the queue is muted. -/
theorem muted_dequeue (t : Timestamp) (a : AccountId) : (dequeue t a).Muted :=
  Dialogue.Only.bind ⟨rfl, fun _ => trivial⟩ fun _ => Dialogue.only_ofExcept _ _

/-- Marking a relation is muted. -/
theorem muted_relate (p c : AccountId) : (relate p c).Muted :=
  Dialogue.Only.bind ⟨rfl, fun _ => trivial⟩ fun _ => Dialogue.only_ofExcept _ _

/-- An update without a check is muted if its change is. -/
theorem muted_update {β : Type} {a : AccountId} {change : Record → Cascade (β × Record)}
    (muted : ∀ r, (change r).Muted) : (update none a change).Muted := by
  refine Dialogue.Only.bind ((muted_load a).mapError _) fun found => ?_
  cases found with
  | none => trivial
  | some r =>
      refine Dialogue.Only.bind ((muted _).mapError _) fun _ => ?_
      exact Dialogue.Only.bind trivial fun _ => Dialogue.Only.bind (muted_put a _) fun _ => trivial

/-- Serving a muted step keeps the events that wait, and the log. -/
theorem Step.run_serve_of_muted {step : Step} (h : step.muted = true) (w : World) :
    (w.run step.serve).2.batch.callbacks = w.batch.callbacks ∧ (w.run step.serve).2.log = w.log := by
  have plain : ∀ {α : Type} {p : Program α}, p.Plain →
      (w.run (Dialogue.attempt p : Program (Except Error α))).2.batch.callbacks =
        w.batch.callbacks ∧ (w.run (Dialogue.attempt p : Program (Except Error α))).2.log = w.log := by
    intro α p hp
    rw [World.run_attempt]
    exact ⟨congrArg Batch.callbacks (hp.run w).1, (hp.run w).2⟩
  cases step with
  | load a =>
      rw [serve, World.run_bind_of_ok w.run_batch]
      cases w.batch.records.get? a with
      | some r => exact ⟨rfl, rfl⟩
      | none => exact plain (Program.plain_record? a)
  | put a r =>
      have hrun : w.run (put a r).serve = _ :=
        (World.run_bind_of_ok w.run_batch _).trans (w.run_keep _)
      rw [hrun]
      exact ⟨rfl, rfl⟩
  | announce callback => contradiction
  | tell notice => contradiction
  | params => exact plain Program.plain_params
  | enqueue t a => exact plain (Program.plain_write _)
  | dequeue t a => exact plain (Program.plain_write _)
  | relate p c => exact plain (Program.plain_write _)

/-- A muted cascade keeps the events that wait, and the log. -/
theorem Muted.run_buffered (muted : c.Muted) (w : World) :
    (w.run c.buffered).2.batch.callbacks = w.batch.callbacks ∧ (w.run c.buffered).2.log = w.log :=
  Dialogue.Only.runWith_through
    (I := fun v : World => v.batch.callbacks = w.batch.callbacks ∧ v.log = w.log)
    (fun _ v hstep hv => ⟨(Step.run_serve_of_muted hstep v).1.trans hv.1,
      (Step.run_serve_of_muted hstep v).2.trans hv.2⟩) muted ⟨rfl, rfl⟩

/-- Where no event waits, only the records are written. -/
theorem run_flush_of_unannounced {w : World} (unannounced : w.batch.callbacks = .empty)
    (host : Host) :
    w.run (flush host) = World.run { w with batch := .empty } (writeAll w.batch.records.toList) := by
  rw [flush, World.run_bind_of_ok w.run_batch, World.run_bind_of_ok (w.run_keep .empty), unannounced]
  exact congrArg (World.run _) (Dialogue.bind_done _)

/-- **A muted cascade is carried out alike** by all hosts, and nothing is heard of it. -/
theorem Muted.unheard_commit (muted : c.Muted) (host host' : Host) :
    (c.commit host).Unheard (c.commit host') := by
  intro w
  have hbuffered := muted.run_buffered { w with batch := .empty }
  rw [commit, commit, World.run_bind_of_ok (w.run_keep .empty),
    World.run_bind_of_ok (w.run_keep .empty)]
  cases hrun : World.run { w with batch := .empty } c.buffered with
  | mk result w₁ =>
      rw [hrun] at hbuffered
      obtain ⟨hcallbacks, hlog⟩ := hbuffered
      cases result with
      | error e =>
          rw [World.run_bind_of_error hrun, World.run_bind_of_error hrun]
          exact ⟨rfl, hlog⟩
      | ok a =>
          rw [World.run_bind_of_ok hrun, World.run_bind_of_ok hrun]
          have hflush := run_flush_of_unannounced hcallbacks host
          have hflush' := run_flush_of_unannounced hcallbacks host'
          have htells : Dialogue.Only (fun call => call.tells = false)
              (writeAll w₁.batch.records.toList >>= fun _ => (pure a : Program α)) :=
            Dialogue.Only.bind (only_writeAll _) fun _ => trivial
          refine ⟨World.run_bind_congr (hflush.trans hflush'.symm) _, ?_⟩
          rw [World.run_bind_congr hflush]
          exact (World.log_run_of_only htells).trans hlog

end Cascade

end ReferralForest

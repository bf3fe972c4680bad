import ReferralForest.Cascade.Basic
import ReferralForest.Proofs.Ledger.Basic

/-!
# Drafts

A cascade changes a *draft*: the ledger as it will be once the cascade is carried out, the events to
be announced then, and the notices told so far. On a draft every step succeeds, so a cascade fails
only where it says so itself. What a cascade yields on a draft is a relation with one equation per
way of building a cascade; whether the records wait in a batch or lie in the store plays no part in it.

## Main definitions

* `Draft`, `Ledger.draft` — ledgers in the course of a change.
* `Draft.answer` — what a step does to a draft.
* `Cascade.Yields` — a cascade that ends well on a draft, with its result and the draft it leaves.
* `Cascade.Breaks` — a cascade that fails on a draft, with its error and the draft it leaves.
-/

namespace ReferralForest

/-- A ledger in the course of a change. -/
structure Draft extends Ledger where
  /-- The events to be announced, each once. -/
  callbacks : SortedMap Callback Unit
  /-- The notices told, oldest first. -/
  notices : List Notice

/-- The draft at the beginning of a change. -/
def Ledger.draft (L : Ledger) : Draft := ⟨L, .empty, []⟩

/-- A draft begins with its ledger. -/
@[simp] theorem Ledger.toLedger_draft (L : Ledger) : L.draft.toLedger = L := rfl

namespace Draft

/-- The draft with another ledger. -/
def withLedger (D : Draft) (L : Ledger) : Draft := { D with toLedger := L }

/-- A draft has the ledger it is given. -/
@[simp] theorem toLedger_withLedger (D : Draft) (L : Ledger) : (D.withLedger L).toLedger = L := rfl

/-- The draft with an event to be announced. -/
def announce (D : Draft) (callback : Callback) : Draft :=
  { D with callbacks := D.callbacks.insert callback () }

/-- Announcing an event leaves the ledger as it is. -/
@[simp] theorem toLedger_announce (D : Draft) (callback : Callback) :
    (D.announce callback).toLedger = D.toLedger := rfl

/-- The draft with a notice told. -/
def tell (D : Draft) (notice : Notice) : Draft :=
  { D with notices := D.notices ++ [notice] }

/-- Telling a notice leaves the ledger as it is. -/
@[simp] theorem toLedger_tell (D : Draft) (notice : Notice) :
    (D.tell notice).toLedger = D.toLedger := rfl

/-- **What a step does to a draft.** -/
def answer (D : Draft) : (step : Cascade.Step) → Except Error step.Answer × Draft
  | .load a => (.ok (.ok (D.records.get? a)), D)
  | .put a r => (.ok (), D.withLedger (D.toLedger.put a r))
  | .announce callback => (.ok (), D.announce callback)
  | .tell notice => (.ok (), D.tell notice)
  | .params => (.ok (.ok (D.params.getD .default)), D)
  | .enqueue t a => (.ok (.ok ()), D.withLedger (D.enqueue t a))
  | .dequeue t a => (.ok (.ok ()), D.withLedger (D.dequeue t a))
  | .relate parent child => (.ok (.ok ()), D.withLedger (D.relate parent child))

/-- Every step succeeds on a draft. -/
theorem exists_answer_eq_ok (D : Draft) (step : Cascade.Step) :
    ∃ reply D', D.answer step = (.ok reply, D') := by
  cases step <;> exact ⟨_, _, rfl⟩

end Draft

namespace Cascade

variable {α β : Type} {D D' : Draft} {e : Error}

/-- A cascade that ends well on a draft, with its result and the draft it leaves. -/
def Yields (c : Cascade α) (D : Draft) (a : α) (D' : Draft) : Prop :=
  c.runWith (fun step D => D.answer step) D = (.ok a, D')

/-- A step yields its answer. -/
theorem yields_ask {step : Step} {next : step.Answer → Cascade α} {reply : step.Answer} {D₁ : Draft}
    {a : α} (h : D.answer step = (.ok reply, D₁)) :
    Yields (.ask step next) D a D' ↔ (next reply).Yields D₁ a D' := by
  rw [Yields, Dialogue.runWith, h]
  rfl

/-- The steps of a cascade, if it is one step and a rest. -/
theorem yields_request {step : Step} {reply : step.Answer} {D₁ : Draft} {a : step.Answer}
    (h : D.answer step = (.ok reply, D₁)) :
    Yields (.request step) D a D' ↔ a = reply ∧ D' = D₁ := by
  rw [Dialogue.request, yields_ask h, Yields, Dialogue.runWith]
  simp [eq_comm]

/-- A cascade that is done yields its result and leaves the draft. -/
@[simp] theorem yields_done {a b : α} : Yields (.done b) D a D' ↔ a = b ∧ D' = D := by
  rw [Yields, Dialogue.runWith]
  simp [eq_comm]

/-- A cascade that fails yields nothing. -/
@[simp] theorem yields_fail {e : Error} {a : α} : Yields (.fail e) D a D' ↔ False := by
  rw [Yields, Dialogue.runWith]
  simp

/-- **One cascade after another.** -/
theorem yields_bind {c : Cascade α} {f : α → Cascade β} {b : β} :
    (c >>= f).Yields D b D' ↔ ∃ a D₁, c.Yields D a D₁ ∧ (f a).Yields D₁ b D' := by
  simp only [Yields, Dialogue.runWith_bind]
  split
  next a D₁ h => simp [h]
  next e D₁ h => simp [h]

/-- A cascade whose result is changed yields the changed one. -/
@[simp] theorem yields_map {c : Cascade α} {f : α → β} {b : β} :
    (f <$> c).Yields D b D' ↔ ∃ a, c.Yields D a D' ∧ b = f a := by
  rw [map_eq_pure_bind, yields_bind]
  simp only [Dialogue.pure_def, yields_done]
  constructor
  · rintro ⟨a, D₁, hc, rfl, rfl⟩
    exact ⟨a, hc, rfl⟩
  · rintro ⟨a, hc, rfl⟩
    exact ⟨a, D', hc, rfl, rfl⟩

/-- A value at hand is yielded, unless it is an error. -/
@[simp] theorem yields_ofExcept {x : Except Error α} {a : α} :
    Yields (.ofExcept x) D a D' ↔ x = .ok a ∧ D' = D := by
  cases x with
  | ok b => simp [Dialogue.ofExcept, eq_comm]
  | error e => simp [Dialogue.ofExcept]

/-- The name of an error does not matter to a cascade that ends well. -/
@[simp] theorem yields_mapError {c : Cascade α} {f : Error → Error} {a : α} :
    Yields (c.mapError f) D a D' ↔ c.Yields D a D' := by
  induction c generalizing D with
  | done b => rfl
  | fail e => simp [Dialogue.mapError]
  | ask step next ih =>
      obtain ⟨reply, D₁, h⟩ := D.exists_answer_eq_ok step
      rw [Dialogue.mapError, yields_ask h, yields_ask h, ih]

/-- A check yields the value, if there is one. -/
@[simp] theorem yields_checked {quantity : String} {o : Option α} {a : α} :
    (checked quantity o).Yields D a D' ↔ o = some a ∧ D' = D := by
  cases o with
  | none => simp [checked]
  | some b => simp [checked, eq_comm]

/-! ### Failures -/

/-- A cascade that fails on a draft, with its error and the draft it leaves. -/
def Breaks (c : Cascade α) (D : Draft) (e : Error) (D' : Draft) : Prop :=
  c.runWith (fun step D => D.answer step) D = (.error e, D')

/-- A cascade that is done does not break off. -/
@[simp] theorem breaks_done {a : α} : Breaks (.done a) D e D' ↔ False := by
  rw [Breaks, Dialogue.runWith]
  simp

/-- A cascade that fails breaks off with its error and leaves the draft. -/
@[simp] theorem breaks_fail {e' : Error} : Breaks (.fail e' : Cascade α) D e D' ↔ e = e' ∧ D' = D := by
  rw [Breaks, Dialogue.runWith]
  simp [eq_comm]

/-- **One cascade after another** fails where the first does, or else where the second does. -/
theorem breaks_bind {c : Cascade α} {f : α → Cascade β} :
    (c >>= f).Breaks D e D' ↔
      c.Breaks D e D' ∨ ∃ a D₁, c.Yields D a D₁ ∧ (f a).Breaks D₁ e D' := by
  simp only [Breaks, Yields, Dialogue.runWith_bind]
  split
  next a D₁ h => simp [h]
  next e' D₁ h => simp [h]

/-- A step never fails, so a cascade that begins with one fails afterwards. -/
theorem breaks_ask {step : Step} {next : step.Answer → Cascade α} {reply : step.Answer} {D₁ : Draft}
    (h : D.answer step = (.ok reply, D₁)) :
    Breaks (.ask step next) D e D' ↔ (next reply).Breaks D₁ e D' := by
  rw [Breaks, Dialogue.runWith, h]
  rfl

/-- A cascade fails with the changed error. -/
theorem breaks_mapError {c : Cascade α} {f : Error → Error} :
    Breaks (c.mapError f) D e D' ↔ ∃ e₀, c.Breaks D e₀ D' ∧ e = f e₀ := by
  induction c generalizing D with
  | done a => simp [Dialogue.mapError]
  | fail e' => simp [Dialogue.mapError, and_comm]
  | ask step next ih =>
      obtain ⟨reply, D₁, h⟩ := D.exists_answer_eq_ok step
      simp only [Dialogue.mapError, breaks_ask h, ih]

/-! ### Steps -/

/-- Loading yields the record in the draft. -/
@[simp] theorem yields_load {a : AccountId} {found : Option Record} :
    (load a).Yields D found D' ↔ found = D.records.get? a ∧ D' = D := by
  have hask : (load a).Yields D found D' ↔
      (.ok (D.records.get? a) : Except Error (Option Record)) = .ok found ∧ D' = D :=
    (yields_ask rfl).trans yields_ofExcept
  rw [hask, Except.ok.injEq, eq_comm]

/-- The parameters are those of the draft, or the default ones. -/
@[simp] theorem yields_params {p : Params} :
    params.Yields D p D' ↔ p = D.params.getD .default ∧ D' = D := by
  have hask : params.Yields D p D' ↔
      (.ok (D.params.getD .default) : Except Error Params) = .ok p ∧ D' = D :=
    (yields_ask rfl).trans yields_ofExcept
  rw [hask, Except.ok.injEq, eq_comm]

/-- Putting a record writes it into the draft. -/
@[simp] theorem yields_put {a : AccountId} {r : Record} {u : Unit} :
    (put a r).Yields D u D' ↔ D' = D.withLedger (D.toLedger.put a r) :=
  (yields_request rfl).trans (and_iff_right rfl)

/-- Announcing adds an event to the draft. -/
@[simp] theorem yields_announce {a : AccountId} {event : Event} {u : Unit} :
    (announce a event).Yields D u D' ↔ D' = D.announce ⟨a, event⟩ :=
  (yields_request rfl).trans (and_iff_right rfl)

/-- Telling adds a notice to the draft. -/
@[simp] theorem yields_tell {notice : Notice} {u : Unit} :
    (tell notice).Yields D u D' ↔ D' = D.tell notice :=
  (yields_request rfl).trans (and_iff_right rfl)

/-- An entry is written into the queue of the draft. -/
@[simp] theorem yields_enqueue {t : Timestamp} {a : AccountId} {u : Unit} :
    (enqueue t a).Yields D u D' ↔ D' = D.withLedger (D.toLedger.enqueue t a) := by
  have hask : (enqueue t a).Yields D u D' ↔
      (.ok () : Except Error Unit) = .ok u ∧ D' = D.withLedger (D.toLedger.enqueue t a) :=
    (yields_ask rfl).trans yields_ofExcept
  exact hask.trans (and_iff_right rfl)

/-- An entry is taken off the queue of the draft. -/
@[simp] theorem yields_dequeue {t : Timestamp} {a : AccountId} {u : Unit} :
    (dequeue t a).Yields D u D' ↔ D' = D.withLedger (D.toLedger.dequeue t a) := by
  have hask : (dequeue t a).Yields D u D' ↔
      (.ok () : Except Error Unit) = .ok u ∧ D' = D.withLedger (D.toLedger.dequeue t a) :=
    (yields_ask rfl).trans yields_ofExcept
  exact hask.trans (and_iff_right rfl)

/-- A relation is marked in the draft. -/
@[simp] theorem yields_relate {parent child : AccountId} {u : Unit} :
    (relate parent child).Yields D u D' ↔ D' = D.withLedger (D.toLedger.relate parent child) := by
  have hask : (relate parent child).Yields D u D' ↔
      (.ok () : Except Error Unit) = .ok u ∧ D' = D.withLedger (D.toLedger.relate parent child) :=
    (yields_ask rfl).trans yields_ofExcept
  exact hask.trans (and_iff_right rfl)

end Cascade

end ReferralForest

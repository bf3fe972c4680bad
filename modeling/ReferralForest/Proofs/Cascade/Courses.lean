import ReferralForest.Cascade.Basic
import ReferralForest.Proofs.Binary.RoundTrip
import ReferralForest.Proofs.Program.Run

/-!
# Courses

A *course* is what a user of the cascades writes: it looks records up, changes records, and announces
events, and what it does next depends on all it has been told so far. Its changes compute on the record
they are given; they may also tell notices, read the parameters and keep the queue and the relations in
step, but they reach no other record.

A record may be held with fewer generation counts than fifteen. Such a record stands for the padded one:
it is read back padded, and changes are given the padded record. A cascade is *blind* if it cannot tell
the two apart; the cascades of courses are.

## Main definitions

* `Cascade.Change`, `Cascade.Course` — changes of a record, and courses.
* `Cascade.Course.cascade` — a course as a cascade, with a transcript of the answers it gets.
* `Cascade.Blind` — the cascades that see records with their counts padded.
* `Cascade.Ends` — the cascades that end with a result of a kind.

## Main statements

* `Cascade.blind_update` — updates are blind.
* `Cascade.Course.blind_cascade` — courses are blind.
-/

namespace ReferralForest

namespace Cascade

variable {α β τ : Type}

/-! ### Blind cascades -/

/-- The answers a step can get: only records that can be stored are loaded. -/
def Step.Gives : (step : Step) → step.Answer → Prop
  | .load _, answer => ∀ r, answer = .ok (some r) → r.Fits
  | _, _ => True

/-- What a step must keep to: what follows a load is the same for a record and for the padded one, and
only records that can be stored are put. -/
def Step.Suits : (step : Step) → (step.Answer → Cascade α) → Prop
  | .load _, next => ∀ r : Record, r.Fits → next (.ok (some r)) = next (.ok (some r.normalize))
  | .put _ r, _ => r.Fits
  | _, _ => True

/-- **The blind cascades** cannot tell a record from the padded one. -/
def Blind : Cascade α → Prop
  | .done _ => True
  | .fail _ => True
  | .ask step next => step.Suits next ∧ ∀ answer, step.Gives answer → Blind (next answer)

/-- The cascades that end, if they do not fail, with a result of a kind. -/
def Ends (P : α → Prop) : Cascade α → Prop
  | .done result => P result
  | .fail _ => True
  | .ask step next => ∀ answer, step.Gives answer → Ends P (next answer)

/-- Following what a step is followed by keeps to what the step must keep to. -/
theorem Step.Suits.map {step : Step} {next : step.Answer → Cascade α} (h : step.Suits next)
    (f : Cascade α → Cascade β) : step.Suits fun answer => f (next answer) := by
  cases step with
  | load a => exact fun r hr => congrArg f (h r hr)
  | put a r => exact h
  | announce | tell | params | enqueue | dequeue | relate => trivial

/-- One blind cascade after another is blind, if the second one is so for every result the first may end
with. -/
theorem Blind.bind {c : Cascade α} {f : α → Cascade β} {P : α → Prop} (hc : c.Blind)
    (ends : c.Ends P) (hf : ∀ result, P result → (f result).Blind) : Blind (c >>= f) := by
  induction c with
  | done result => exact hf result ends
  | fail e => trivial
  | ask step next ih =>
      exact ⟨hc.1.map (· >>= f), fun answer given =>
        ih answer (hc.2 answer given) (ends answer given)⟩

/-- Renaming errors keeps a cascade blind. -/
theorem Blind.mapError {c : Cascade α} (hc : c.Blind) (f : Error → Error) :
    Blind (Dialogue.mapError f c) := by
  induction c with
  | done result => trivial
  | fail e => trivial
  | ask step next ih =>
      exact ⟨hc.1.map (Dialogue.mapError f), fun answer given => ih answer (hc.2 answer given)⟩

/-- How a cascade ends may be left open. -/
theorem ends_true (c : Cascade α) : c.Ends fun _ => True := by
  induction c with
  | done result => trivial
  | fail e => trivial
  | ask step next ih => exact fun answer _ => ih answer

/-- One cascade after another ends as the second one does, which may count on how the first one ends. -/
theorem Ends.bind {c : Cascade α} {f : α → Cascade β} {P : α → Prop} {Q : β → Prop}
    (hc : c.Ends P) (hf : ∀ result, P result → (f result).Ends Q) : Ends Q (c >>= f) := by
  induction c with
  | done result => exact hf result hc
  | fail e => trivial
  | ask step next ih => exact fun answer given => ih answer (hc answer given)

/-- A cascade that ends with results of one kind ends with those of any wider kind. -/
theorem Ends.mono {c : Cascade α} {P Q : α → Prop} (hc : c.Ends P)
    (h : ∀ result, P result → Q result) : c.Ends Q := by
  induction c with
  | done result => exact h result hc
  | fail e => trivial
  | ask step next ih => exact fun answer given => ih answer (hc answer given)

/-- Renaming errors does not change how a cascade ends. -/
theorem Ends.mapError {c : Cascade α} {P : α → Prop} (hc : c.Ends P) (f : Error → Error) :
    Ends P (Dialogue.mapError f c) := by
  induction c with
  | done result => exact hc
  | fail e => trivial
  | ask step next ih => exact fun answer given => ih answer (hc answer given)

/-- A value at hand is of a kind if it is so unless it is an error. -/
theorem ends_ofExcept {x : Except Error α} {P : α → Prop} (h : ∀ result, x = .ok result → P result) :
    Ends P (.ofExcept x) := by
  cases x with
  | ok result => exact h result rfl
  | error e => trivial

/-- The steps that concern no record. -/
def Step.Aside : Step → Prop
  | .load _ | .put _ _ => False
  | _ => True

/-- A cascade that reaches no record is blind. -/
theorem blind_of_aside {c : Cascade α} (h : c.Only Step.Aside) : c.Blind := by
  induction c with
  | done result => trivial
  | fail e => trivial
  | ask step next ih =>
      refine ⟨?_, fun answer _ => ih answer (h.2 answer)⟩
      cases step with
      | load | put => exact h.1.elim
      | announce | tell | params | enqueue | dequeue | relate => trivial

/-! ### Buffered runs -/

/-- A buffered cascade goes on as one program after another. -/
theorem buffered_bind (c : Cascade α) (f : α → Cascade β) :
    (c >>= f).buffered = c.buffered >>= fun a => (f a).buffered :=
  Dialogue.through_bind Step.serve c f

/-- A buffered step is served. -/
theorem buffered_request (step : Step) : buffered (.request step) = step.serve :=
  Dialogue.bind_done step.serve

/-- Putting a record adds it to the batch. -/
theorem run_buffered_put (w : World) (a : AccountId) (r : Record) :
    w.run (put a r).buffered =
      (.ok (), { w with batch := { w.batch with records := w.batch.records.insert a r } }) := by
  have hserve : w.run (put a r).buffered = w.run (Step.put a r).serve :=
    congrArg w.run (buffered_request (.put a r))
  exact hserve.trans ((World.run_bind_of_ok w.run_batch _).trans (w.run_keep _))

/-- A record of the batch is loaded from there. -/
theorem run_buffered_load_of_get? {w : World} {a : AccountId} {r : Record}
    (found : w.batch.records.get? a = some r) : w.run (load a).buffered = (.ok (some r), w) := by
  have hserve : w.run (Step.load a).serve = (.ok (.ok (some r)), w) :=
    (World.run_bind_of_ok w.run_batch _).trans (by rw [found]; rfl)
  exact World.run_bind_eq_ok_iff.mpr ⟨_, w, hserve, rfl⟩

/-- A buffered cascade succeeds whatever its errors are called. -/
theorem run_buffered_mapError_eq_ok_iff {c : Cascade α} (f : Error → Error) {w w' : World} {x : α} :
    w.run (buffered (Dialogue.mapError f c)) = (.ok x, w') ↔ w.run c.buffered = (.ok x, w') := by
  induction c generalizing w with
  | done result => exact Iff.rfl
  | fail e => exact iff_of_false nofun nofun
  | ask step next ih =>
      have hgoes : ∀ next : step.Answer → Cascade α, buffered (.ask step next) =
          step.serve >>= fun answer => (next answer).buffered := fun _ => rfl
      rw [Dialogue.mapError, hgoes, hgoes, World.run_bind_eq_ok_iff, World.run_bind_eq_ok_iff]
      simp only [ih]

/-- **A cascade that reaches no record ends as it may** when it is run, too. -/
theorem Ends.of_run_buffered {c : Cascade α} {P : α → Prop} (ends : c.Ends P)
    (aside : c.Only Step.Aside) {w w' : World} {x : α} (ran : w.run c.buffered = (.ok x, w')) :
    P x := by
  induction c generalizing w with
  | done result =>
      obtain rfl := Except.ok.inj (Prod.mk.inj ran).1
      exact ends
  | fail e => exact nomatch ran
  | ask step next ih =>
      obtain ⟨answer, w₁, -, hrest⟩ := World.run_bind_eq_ok_iff.mp ran
      refine ih answer (ends answer ?_) (aside.2 answer) hrest
      cases step with
      | load | put => exact aside.1.elim
      | announce | tell | params | enqueue | dequeue | relate => trivial

/-! ### Settling a status -/

/-- Reading the parameters concerns no record. -/
theorem aside_params : params.Only Step.Aside := ⟨trivial, fun _ => Dialogue.only_ofExcept _ _⟩

/-- Writing an entry into the queue concerns no record. -/
theorem aside_enqueue (t : Timestamp) (a : AccountId) : (enqueue t a).Only Step.Aside :=
  ⟨trivial, fun _ => Dialogue.only_ofExcept _ _⟩

/-- Taking an entry off the queue concerns no record. -/
theorem aside_dequeue (t : Timestamp) (a : AccountId) : (dequeue t a).Only Step.Aside :=
  ⟨trivial, fun _ => Dialogue.only_ofExcept _ _⟩

/-- Scheduling the loss of a tier concerns no stored record. -/
theorem aside_scheduleDowngrade (now : Timestamp) (a : AccountId) (r : Record) :
    (scheduleDowngrade now a r).Only Step.Aside := by
  rw [scheduleDowngrade]
  split
  · trivial
  · refine aside_params.bind fun p => ?_
    cases now.add? p.gracePeriod with
    | none => trivial
    | some time =>
        exact (aside_enqueue time a).bind fun _ => ⟨trivial, fun _ => trivial⟩

/-- Cancelling the loss of a tier concerns no stored record. -/
theorem aside_cancelDowngrade (a : AccountId) (r : Record) :
    (cancelDowngrade a r).Only Step.Aside := by
  rw [cancelDowngrade]
  split
  · trivial
  · exact (aside_dequeue _ a).bind fun _ => ⟨trivial, fun _ => trivial⟩

/-- Climbing concerns no stored record. -/
theorem aside_promote (a : AccountId) (r : Record) : (promote a r).Only Step.Aside := by
  simp only [promote]
  split
  · exact ⟨trivial, fun _ => ⟨trivial, fun _ => trivial⟩⟩
  · trivial

/-- A status check concerns no stored record, only the one it is given. -/
theorem aside_refresh (now : Timestamp) (a : AccountId) (r : Record) :
    (refresh now a r).Only Step.Aside := by
  rw [refresh]
  split
  · exact (aside_cancelDowngrade a r).bind fun r => aside_promote a r
  · exact aside_scheduleDowngrade now a r

/-- Scheduling the loss of a tier leaves a schedule behind. -/
theorem ends_scheduleDowngrade (now : Timestamp) (a : AccountId) (r : Record) :
    (scheduleDowngrade now a r).Ends fun r' => ∃ t, r' = { r with downgradeAt := some t } := by
  rw [scheduleDowngrade]
  cases hr : r.downgradeAt with
  | some t => exact ⟨t, by rw [← hr]⟩
  | none =>
      refine (ends_true _).bind fun p _ => (ends_true _).bind fun time _ => ?_
      exact (ends_true _).bind fun _ _ => (ends_true _).bind fun _ _ => ⟨time, rfl⟩

/-- Canceling it leaves none. -/
theorem ends_cancelDowngrade (a : AccountId) (r : Record) :
    (cancelDowngrade a r).Ends fun r' => r' = { r with downgradeAt := none } := by
  rw [cancelDowngrade]
  cases hr : r.downgradeAt with
  | none => exact congrArg (fun t => { r with downgradeAt := t }) hr
  | some t => exact (ends_true _).bind fun _ _ => (ends_true _).bind fun _ _ => rfl

/-- Promotion writes the tier that is reached, if it is a higher one. -/
theorem ends_promote (a : AccountId) (r : Record) :
    (promote a r).Ends fun r' =>
      r' = { r with status := if r.status < climb r r.status then climb r r.status else r.status } := by
  rw [promote]
  split
  · exact (ends_true _).bind fun _ _ => (ends_true _).bind fun _ _ => rfl
  · exact rfl

/-- **Settling a status** leaves the generation counts alone. -/
theorem ends_refresh (now : Timestamp) (a : AccountId) (r : Record) :
    (refresh now a r).Ends fun r' => r'.generations = r.generations := by
  rw [refresh]
  split
  · refine (ends_cancelDowngrade a r).bind ?_
    rintro _ rfl
    refine (ends_promote a _).mono ?_
    rintro _ rfl
    rfl
  · refine (ends_scheduleDowngrade now a r).mono ?_
    rintro _ ⟨t, rfl⟩
    rfl

/-! ### Updates -/

/-- A change of a record: what it gives, and the changed record. It reaches no other record, and a
record that can be stored still can be when it is changed. -/
structure Change (τ : Type) where
  /-- What is done with the record. -/
  apply : Record → Cascade (τ × Record)
  /-- No step concerns a record. -/
  aside : ∀ r, (apply r).Only Step.Aside
  /-- The changed record can be stored. -/
  fits : ∀ r, r.Fits → (apply r).Ends fun changed => changed.2.Fits

/-- A change that only computes. -/
def Change.ofFunction (f : Record → Except Error (τ × Record))
    (fits : ∀ r x r', r.Fits → f r = .ok (x, r') → r'.Fits) : Change τ where
  apply r := .ofExcept (f r)
  aside _ := Dialogue.only_ofExcept _ _
  fits r hr := ends_ofExcept fun changed h => fits r changed.1 changed.2 hr h

/-- What follows a load of records that it pads is blind. -/
theorem blind_load_bind (a : AccountId) (rename : Error → Error) {f : Option Record → Cascade α}
    (pads : ∀ r, f (some r) = f (some r.normalize))
    (hf : ∀ found, (∀ r, found = some r → r.Fits) → (f found).Blind) :
    Blind (Dialogue.mapError rename (load a) >>= f) := by
  refine ⟨fun r _ => pads r, fun answer given => ?_⟩
  cases answer with
  | error e => trivial
  | ok found => exact hf found fun r hr => given r (congrArg Except.ok hr)

/-- **Updates are blind.** -/
theorem blind_update (checkAt : Option Timestamp) (a : AccountId) (change : Change τ) :
    (update checkAt a change.apply).Blind := by
  refine blind_load_bind a _ (fun r => ?_) fun found hfound => ?_
  · simp only [Record.normalize_normalize]
  · cases found with
    | none => trivial
    | some r =>
        have hr : r.normalize.Fits := (hfound r rfl).normalize
        refine ((blind_of_aside (change.aside _)).mapError _).bind ((change.fits _ hr).mapError _) ?_
        rintro ⟨x, changed⟩ hchanged
        have hput : ∀ r' : Record, r'.Fits →
            Blind (do put a r'; return some x) := fun r' hr' => ⟨hr', fun _ _ => trivial⟩
        cases checkAt with
        | none => exact hput changed hchanged
        | some now =>
            refine ((blind_of_aside (aside_refresh now a changed)).mapError _).bind
              ((ends_refresh now a changed).mapError _) fun r' hr' => hput r' ?_
            rwa [Record.Fits, hr']

/-! ### Courses -/

/-- What a course asks for. -/
inductive Request (τ : Type) where
  /-- The record of an account. -/
  | get (account : AccountId)
  /-- That the record of an account be changed, and its status be settled if a time is given. -/
  | update (checkAt : Option Timestamp) (account : AccountId) (change : Change τ)
  /-- That an event be announced at the end. -/
  | announce (account : AccountId) (event : Event)

/-- What a request is answered with. -/
def Request.Answer : Request τ → Type
  | get _ => Option Record
  | update _ _ _ => Option τ
  | announce _ _ => Unit

/-- The courses, each of which may go on with what it has been told as it likes, or fail. -/
abbrev Course (τ α : Type) := Dialogue (Request τ) Request.Answer Error α

/-- Serves a request of a course. Records are shown with their counts padded. -/
def Request.serve : (request : Request τ) → Cascade request.Answer
  | get account => Option.map Record.normalize <$> load account
  | update checkAt account change => Cascade.update checkAt account change.apply
  | announce account event => Cascade.announce account event

/-- A request and its answer. -/
abbrev Reply (τ : Type) := Σ request : Request τ, request.Answer

/-- **A course as a cascade**, which ends with all requests and answers in order, and the result. -/
def Course.cascade : Course τ α → Cascade (List (Reply τ) × α)
  | .done result => pure ([], result)
  | .fail e => .fail e
  | .ask request next => do
    let answer ← request.serve
    let (rest, result) ← Course.cascade (next answer)
    return (⟨request, answer⟩ :: rest, result)

/-- Requests are served blindly. -/
theorem Request.blind_serve (request : Request τ) : request.serve.Blind := by
  cases request with
  | get a =>
      refine ⟨fun r _ => ?_, fun answer _ => ?_⟩
      · exact congrArg (fun r => Dialogue.done (some r)) r.normalize_normalize.symm
      · cases answer <;> trivial
  | update checkAt a change => exact blind_update checkAt a change
  | announce a event => exact ⟨trivial, fun _ _ => trivial⟩

/-- **Courses are blind.** -/
theorem Course.blind_cascade (course : Course τ α) : course.cascade.Blind := by
  induction course with
  | done result => trivial
  | fail e => trivial
  | ask request next ih =>
      refine request.blind_serve.bind (ends_true _) fun answer _ => ?_
      exact (ih answer).bind (ends_true _) fun _ _ => trivial

-- A change that loses the generation counts, and a look at the record: the look finds all fifteen.
example :
    let a : AccountId := ⟨"root", by decide, by decide⟩
    let stored := SortedMap.ofList [((Slot.record a).key, (Record.fresh none .new).encode)]
    let lose : Change Unit := .ofFunction (fun r => .ok ((), { r with generations := [] }))
      fun _ _ _ _ h => by cases h; exact Nat.zero_lt_succ _
    let course : Course Unit (Option Nat) :=
      .ask (.update none a lose) fun _ =>
        .ask (.get a) fun (found : Option Record) => .done (found.map (·.generations.length))
    (((World.ofStore (.ofEntries stored)).run course.cascade.buffered).1.toOption).map (·.2) =
      some (some 15) := by
  decide +kernel

end Cascade

end ReferralForest

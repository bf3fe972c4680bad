import ReferralForest.Host
import ReferralForest.Proofs.Store.View

/-!
# Running Programs

A run of one program after another is a run of the first and then a run of the second. A program that
asks for no writes leaves the store as it is, and a program that runs in a branch of its own either
fails and leaves the store as it was, or succeeds and leaves what it saw at its end.

## Main definitions

* `Dialogue.Only` — the dialogues all of whose requests are of a kind.
* `Program.Silent` — the programs that write nothing.
* `Host.Quiet` — the hosts none of whose listeners writes to the store.

## Main statements

* `World.run_bind_eq_ok_iff` — runs of one program after another.
* `World.store_run_of_silent` — silent programs leave the store as it is.
* `World.transact_error`, `World.transact_ok` — the two ends of a transaction.
-/

namespace ReferralForest

namespace Dialogue

variable {Request : Type} {Answer : Request → Type} {ε ε' α β : Type}

/-- The dialogues all of whose requests, whatever they are answered with, satisfy a test. -/
def Only (allowed : Request → Prop) : Dialogue Request Answer ε α → Prop
  | done _ => True
  | fail _ => True
  | ask q next => allowed q ∧ ∀ answer, (next answer).Only allowed

/-- Requests of one dialogue and then of another. -/
theorem Only.bind {allowed : Request → Prop} {d : Dialogue Request Answer ε α}
    {f : α → Dialogue Request Answer ε β} (hd : d.Only allowed)
    (hf : ∀ a, (f a).Only allowed) : (d >>= f).Only allowed := by
  induction d with
  | done a => exact hf a
  | fail e => trivial
  | ask q next ih => exact ⟨hd.1, fun answer => ih answer (hd.2 answer)⟩

/-- Changing the error changes no request. -/
theorem Only.mapError {allowed : Request → Prop} {d : Dialogue Request Answer ε α}
    (hd : d.Only allowed) (f : ε → ε') : (d.mapError f).Only allowed := by
  induction d with
  | done a => trivial
  | fail e => trivial
  | ask q next ih => exact ⟨hd.1, fun answer => ih answer (hd.2 answer)⟩

/-- A dialogue that asks nothing satisfies every test on its requests. -/
theorem only_ofExcept (allowed : Request → Prop) (x : Except ε α) :
    (ofExcept x : Dialogue Request Answer ε α).Only allowed := by
  cases x <;> trivial

/-- Every dialogue asks what may be asked. -/
theorem only_true (d : Dialogue Request Answer ε α) : d.Only fun _ => True := by
  induction d with
  | done a => trivial
  | fail e => trivial
  | ask q next ih => exact ⟨trivial, ih⟩

/-- **What each answer keeps, a run keeps.** -/
theorem Only.runWith {σ : Type} {allowed : Request → Prop}
    {answer : (q : Request) → σ → Except ε (Answer q) × σ} {I : σ → Prop}
    (step : ∀ q s, allowed q → I s → I (answer q s).2) {d : Dialogue Request Answer ε α}
    (hd : d.Only allowed) {s : σ} (hs : I s) : I (d.runWith answer s).2 := by
  induction d generalizing s with
  | done a => exact hs
  | fail e => exact hs
  | ask q next ih =>
      have hstep := step q s hd.1 hs
      rw [Dialogue.runWith]
      split
      next reply s' heq => exact ih reply (hd.2 reply) (by rw [heq] at hstep; exact hstep)
      next e s' heq => rw [heq] at hstep; exact hstep

/-- **What serving each request keeps, a run keeps** in which another dialogue serves the requests. -/
theorem Only.runWith_through {Request' : Type} {Answer' : Request' → Type} {σ : Type}
    {allowed : Request → Prop} {serve : (q : Request) → Dialogue Request' Answer' ε (Answer q)}
    {answer : (q : Request') → σ → Except ε (Answer' q) × σ} {I : σ → Prop}
    (step : ∀ q s, allowed q → I s → I ((serve q).runWith answer s).2)
    {d : Dialogue Request Answer ε α} (hd : d.Only allowed) {s : σ} (hs : I s) :
    I ((d.through serve).runWith answer s).2 := by
  induction d generalizing s with
  | done a => exact hs
  | fail e => exact hs
  | ask q next ih =>
      have hstep := step q s hd.1 hs
      change I ((serve q >>= fun a => (next a).through serve).runWith answer s).2
      rw [runWith_bind]
      split
      next reply s' heq => exact ih reply (hd.2 reply) (by rw [heq] at hstep; exact hstep)
      next e s' heq => rw [heq] at hstep; exact hstep

end Dialogue

/-- Whether a call asks the store for a write. -/
def Call.writes : Call → Bool
  | .write _ => true
  | _ => false

/-- The programs that write nothing. -/
def Program.Silent {α : Type} (p : Program α) : Prop := p.Only fun call => call.writes = false

/-- Looking a key up writes nothing. -/
theorem Program.silent_get (key : Key) : Silent (get key) :=
  Dialogue.Only.bind ⟨rfl, fun _ => trivial⟩ fun _ => Dialogue.only_ofExcept _ _

/-- Looking a record up writes nothing. -/
theorem Program.silent_record? (a : AccountId) : Silent (record? a) := by
  refine Dialogue.Only.bind (silent_get _) fun found => ?_
  cases found with
  | none => trivial
  | some bytes => exact Dialogue.Only.bind (Dialogue.only_ofExcept _ _) fun _ => trivial

/-- **The hosts none of whose listeners writes to the store.** -/
def Host.Quiet (host : Host) : Prop :=
  ∀ entry ∈ host.listeners, ∀ account, Program.Silent (entry.2 account)

namespace Host

/-- Recording listeners write nothing. -/
theorem silent_recording (n : Nat) (event : Event) (target : Option AccountId) (looks : Bool)
    (failure : Option Error) (account : AccountId) :
    Program.Silent (Listener.recording n event target looks failure account) := by
  have hhear : ∀ seen {rest : Program Unit}, rest.Silent →
      Program.Silent (Program.tell (.hearing ⟨n, event, account, seen⟩) >>= fun _ => rest) :=
    fun _ _ hrest => Dialogue.Only.bind ⟨rfl, fun _ => trivial⟩ fun _ => hrest
  simp only [Listener.recording]
  split
  · split
    · refine Dialogue.Only.bind (Dialogue.Only.bind (Program.silent_record? account) fun _ => trivial)
        fun seen => hhear seen ?_
      cases failure <;> trivial
    · refine hhear none ?_
      cases failure <;> trivial
  · trivial

/-- Announcing an event asks for nothing but what the listeners ask for. -/
theorem only_announce {host : Host} {allowed : Call → Prop}
    (h : ∀ entry ∈ host.listeners, ∀ account, (entry.2 account).Only allowed) (target : Callback) :
    (host.announce target).Only allowed := by
  have hcall : ∀ l : List (Event × Listener), (∀ entry ∈ l, entry ∈ host.listeners) →
      (callAll l target.account).Only allowed := by
    intro l hl
    induction l with
    | nil => trivial
    | cons entry rest ih =>
        refine Dialogue.Only.bind (h entry (hl entry List.mem_cons_self) _) fun _ => ?_
        exact ih fun e he => hl e (List.mem_cons_of_mem _ he)
  exact Dialogue.Only.mapError (hcall _ fun entry he => (List.mem_filter.mp he).1) _

/-- Announcing an event to quiet listeners writes nothing. -/
theorem Quiet.silent_announce {host : Host} (quiet : host.Quiet) (target : Callback) :
    Program.Silent (host.announce target) :=
  only_announce quiet target

end Host

namespace World

variable {α β : Type} {w w' : World}

/-- A program that is done gives its result and leaves the world. -/
@[simp] theorem run_done (w : World) (a : α) : w.run (.done a) = (.ok a, w) := rfl

/-- A program that fails gives its error and leaves the world. -/
@[simp] theorem run_fail (w : World) (e : Error) : w.run (.fail e : Program α) = (.error e, w) := rfl

/-- A value at hand is given, or its error. -/
@[simp] theorem run_ofExcept (w : World) (x : Except Error α) : w.run (.ofExcept x) = (x, w) := by
  cases x <;> rfl

/-- The run of a single call is its answer. -/
theorem run_request (w : World) (call : Call) : w.run (.request call) = w.answer call := by
  rw [run, Dialogue.request, Dialogue.runWith]
  split
  next reply w' h => exact h.symm
  next e w' h => exact h.symm

/-- No call is refused by the surroundings of a program: a refusal of the store is an answer. -/
theorem exists_answer (w : World) (call : Call) : ∃ reply w', w.answer call = (.ok reply, w') := by
  cases call <;> exact ⟨_, _, rfl⟩

/-- A run asks once and goes on. -/
theorem run_ask {call : Call} {next : call.Answer → Program α} {reply : call.Answer} {w' : World}
    (h : w.answer call = (.ok reply, w')) :
    w.run (.ask call next) = w'.run (next reply) := by
  simp only [run, Dialogue.runWith, h]

/-- A run goes on where its first part ended. -/
theorem run_bind_of_ok {p : Program α} {a : α} (h : w.run p = (.ok a, w')) (f : α → Program β) :
    w.run (p >>= f) = w'.run (f a) := by
  simp only [run] at h ⊢
  rw [Dialogue.runWith_bind, h]

/-- A run ends where its first part failed. -/
theorem run_bind_of_error {p : Program α} {e : Error} (h : w.run p = (.error e, w'))
    (f : α → Program β) : w.run (p >>= f) = (.error e, w') := by
  simp only [run] at h ⊢
  rw [Dialogue.runWith_bind, h]

/-- Two runs that end alike go on alike. -/
theorem run_bind_congr {p q : Program α} (h : w.run p = w'.run q) (f : α → Program β) :
    w.run (p >>= f) = w'.run (q >>= f) := by
  simp only [run] at h ⊢
  rw [Dialogue.runWith_bind, Dialogue.runWith_bind, h]

/-- **A run of one program after another** succeeds if both parts do. -/
theorem run_bind_eq_ok_iff {p : Program α} {f : α → Program β} {b : β} :
    w.run (p >>= f) = (.ok b, w') ↔
      ∃ a w₁, w.run p = (.ok a, w₁) ∧ w₁.run (f a) = (.ok b, w') := by
  constructor
  · intro h
    cases hp : w.run p with
    | mk result w₁ =>
        cases result with
        | ok a => exact ⟨a, w₁, rfl, run_bind_of_ok hp f ▸ h⟩
        | error e =>
            rw [run_bind_of_error hp f] at h
            simp at h
  · rintro ⟨a, w₁, hp, hf⟩
    rw [run_bind_of_ok hp f, hf]

/-- A run of one program after another fails where the first does, or else where the second does. -/
theorem run_bind_eq_error_iff {p : Program α} {f : α → Program β} {e : Error} :
    w.run (p >>= f) = (.error e, w') ↔ w.run p = (.error e, w') ∨
      ∃ a w₁, w.run p = (.ok a, w₁) ∧ w₁.run (f a) = (.error e, w') := by
  cases hp : w.run p with
  | mk result w₁ =>
      cases result with
      | ok a => simp [run_bind_of_ok hp]
      | error e' => simp [run_bind_of_error hp]

/-- Looking a key up in the store. -/
theorem run_get (w : World) (key : Key) :
    w.run (Program.get key) =
      ((w.store.get key).1.mapError Error.ofStore, { w with store := (w.store.get key).2 }) :=
  (run_bind_of_ok (run_request w (Call.get key)) Program.accepted).trans (run_ofExcept _ _)

/-- A write to the store. -/
theorem run_write (w : World) (write : Store.Write) :
    w.run (Program.write write) =
      ((w.store.write write).1.mapError Error.ofStore,
        { w with store := (w.store.write write).2 }) :=
  (run_bind_of_ok (run_request w (Call.write write)) Program.accepted).trans (run_ofExcept _ _)

/-- Listing a range of the store. -/
theorem run_range (w : World) (range : KeyRange) :
    w.run (Program.range range) =
      ((w.store.range range).1.mapError Error.ofStore,
        { w with store := (w.store.range range).2 }) :=
  (run_bind_of_ok (run_request w (Call.range range)) Program.accepted).trans (run_ofExcept _ _)

/-- A program never fails if its failure is a result. -/
theorem run_attempt (w : World) (p : Program α) :
    w.run p.attempt = (.ok (w.run p).1, (w.run p).2) := by
  induction p generalizing w with
  | done a => rfl
  | fail e => rfl
  | ask call next ih =>
      obtain ⟨reply, w', hanswer⟩ := w.exists_answer call
      rw [run_ask hanswer, Dialogue.attempt, run_ask hanswer, ih reply w']

/-- An attempt that goes well gives the result. -/
theorem run_attempt_of_ok {p : Program α} {a : α} (h : w.run p = (.ok a, w')) :
    w.run p.attempt = (.ok (.ok a), w') := by
  rw [run_attempt, h]

/-- The batch is that of the world. -/
theorem run_batch (w : World) : w.run Program.batch = (.ok w.batch, w) :=
  run_request w Call.batch

/-- The world keeps the batch it is given. -/
theorem run_keep (w : World) (batch : Batch) :
    w.run (Program.keep batch) = (.ok (), { w with batch }) :=
  run_request w (Call.keep batch)

/-- What is told is the last line of the log. -/
theorem run_tell (w : World) (entry : Entry) :
    w.run (Program.tell entry) = (.ok (), { w with log := w.log ++ [entry] }) :=
  run_request w (Call.tell entry)

/-- A changed result is given if the program goes well. -/
theorem run_map_of_ok {p : Program α} {a : α} (h : w.run p = (.ok a, w')) (f : α → β) :
    w.run (f <$> p) = (.ok (f a), w') := by
  rw [map_eq_pure_bind, run_bind_of_ok h]
  rfl

/-! ### Branches -/

/-- A call that writes nothing leaves the store as it is. -/
theorem store_answer_of_not_writes (call : Call) (h : call.writes = false)
    (free : w.store.Unlimited) : (w.answer call).2.store = w.store := by
  cases call with
  | get key => simp [answer, onStore, Store.get_eq_view free]
  | write write => simp [Call.writes] at h
  | range range => simp [answer, onStore, Store.range_eq_view free]
  | size => rfl
  | tell entry => rfl
  | batch => rfl
  | keep batch => rfl

/-- **Silent programs leave the store as it is.** -/
theorem store_run_of_silent {p : Program α} (hp : p.Silent) (free : w.store.Unlimited) :
    (w.run p).2.store = w.store := by
  refine Dialogue.Only.runWith (I := fun v : World => v.store = w.store)
    (fun call v hcall hv => ?_) hp rfl
  rw [store_answer_of_not_writes call hcall (show v.store.Unlimited from hv ▸ free)]
  exact hv

/-- No program closes a branch or reaches below it. -/
theorem above_run {below : Store} (free : below.Unlimited) (h : below.Above w.store)
    (p : Program α) : below.Above (w.run p).2.store := by
  refine Dialogue.Only.runWith (I := fun v : World => below.Above v.store) (fun call v _ hv => ?_)
    (Dialogue.only_true p) h
  have hfree : v.store.Unlimited := hv.unlimited free
  cases hcall : call.writes with
  | false => rwa [store_answer_of_not_writes call hcall hfree]
  | true =>
      cases call with
      | write write => exact hv.write write
      | _ => simp [Call.writes] at hcall

/-- A run in a new branch. -/
theorem above_run_branch (free : w.store.Unlimited) (p : Program α) :
    w.store.Above (World.run { w with store := w.store.branch } p).2.store :=
  above_run free (Store.above_branch w.store) p

/-- **A transaction that fails** leaves the store as it was. -/
theorem transact_error (free : w.store.Unlimited) {p : Program α} {e : Error}
    (h : w.transact p = (.error e, w')) : w'.store = w.store := by
  have habove := above_run_branch free p
  simp only [transact, inBranch] at h
  split at h
  next e' w₁ hrun =>
      rw [hrun] at habove
      obtain ⟨-, rfl⟩ := Prod.mk.inj h
      exact habove.discard_eq
  next a w₁ hrun =>
      rw [hrun] at habove
      obtain ⟨store, hcommit, -, -⟩ := Store.commit_view (habove.unlimited free)
      rw [hcommit] at h
      simp at h

/-- **A transaction that succeeds** leaves what its program saw at its end. -/
theorem transact_ok (free : w.store.Unlimited) {p : Program α} {a : α}
    (h : w.transact p = (.ok a, w')) :
    ∃ w₁ : World, World.run { w with store := w.store.branch } p = (.ok a, w₁) ∧
      w'.store.Unlimited ∧ w'.store.view = w₁.store.view := by
  have habove := above_run_branch free p
  simp only [transact, inBranch] at h
  split at h
  next e' w₁ hrun => simp at h
  next a' w₁ hrun =>
      rw [hrun] at habove
      obtain ⟨store, hcommit, hfree, hview⟩ := Store.commit_view (habove.unlimited free)
      rw [hcommit] at h
      obtain ⟨hok, rfl⟩ := Prod.mk.inj h
      obtain rfl := Except.ok.inj hok
      exact ⟨w₁, hrun, hfree, hview⟩

/-- **A transaction succeeds** if its program does in a branch. -/
theorem transact_of_run (free : w.store.Unlimited) {p : Program α} {a : α}
    (h : World.run { w with store := w.store.branch } p = (.ok a, w')) :
    ∃ store, w.transact p = (.ok a, { w' with store }) ∧ store.Unlimited ∧
      store.view = w'.store.view := by
  have habove := above_run_branch free p
  rw [h] at habove
  obtain ⟨store, hcommit, hfree, hview⟩ := Store.commit_view (habove.unlimited free)
  refine ⟨store, ?_, hfree, hview⟩
  rw [transact, inBranch, h]
  dsimp only
  rw [hcommit]

/-- **A transaction that succeeds** leaves the log that its program leaves in a branch. -/
theorem log_of_transact_eq (free : w.store.Unlimited) {p : Program α} {a : α}
    (h : w.transact p = (.ok a, w')) :
    ∃ w₁ : World, World.run { w with store := w.store.branch } p = (.ok a, w₁) ∧
      w'.store.Unlimited ∧ w'.store.view = w₁.store.view ∧ w'.log = w₁.log := by
  obtain ⟨w₁, hrun, hfree, hview⟩ := transact_ok free h
  obtain ⟨store', htransact, -, -⟩ := transact_of_run free hrun
  obtain ⟨-, rfl⟩ := Prod.mk.inj (h.symm.trans htransact)
  exact ⟨w₁, hrun, hfree, hview, rfl⟩

/-- Programs that run alike in a branch are the same transaction. -/
theorem transact_congr {p q : Program α}
    (h : World.run { w with store := w.store.branch } p =
      World.run { w with store := w.store.branch } q) : w.transact p = w.transact q := by
  rw [transact, transact, inBranch, inBranch, h]

/-- The outcome of a transaction is that of its program in a branch. -/
theorem fst_transact (free : w.store.Unlimited) (p : Program α) :
    (w.transact p).1 = (World.run { w with store := w.store.branch } p).1 := by
  cases hrun : World.run { w with store := w.store.branch } p with
  | mk result w₁ =>
      cases result with
      | error e => simp only [transact, inBranch, hrun]
      | ok a =>
          obtain ⟨store, htransact, -, -⟩ := transact_of_run free hrun
          rw [htransact]

/-- A program ends as it does with other names for its errors. -/
theorem run_mapError (w : World) (p : Program α) (f : Error → Error) :
    w.run (p.mapError f) = ((w.run p).1.mapError f, (w.run p).2) := by
  induction p generalizing w with
  | done a => rfl
  | fail e => rfl
  | ask call next ih =>
      obtain ⟨reply, w', hanswer⟩ := w.exists_answer call
      rw [Dialogue.mapError, run_ask hanswer, run_ask hanswer, ih reply w']

/-- A program fails with the changed error. -/
theorem run_mapError_eq_error_iff {p : Program α} {f : Error → Error} {e : Error} :
    w.run (p.mapError f) = (.error e, w') ↔ ∃ e₀, w.run p = (.error e₀, w') ∧ e = f e₀ := by
  rw [run_mapError]
  cases w.run p with
  | mk result w₁ => cases result <;> simp [Except.mapError, and_comm, eq_comm]

/-- A program that succeeds does so whatever its errors are called. -/
theorem run_mapError_of_ok {p : Program α} {a : α} (h : w.run p = (.ok a, w'))
    (f : Error → Error) : w.run (p.mapError f) = (.ok a, w') := by
  rw [run_mapError, h]
  rfl

end World

end ReferralForest

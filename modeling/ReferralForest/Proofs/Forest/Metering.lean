import ReferralForest.Proofs.Forest.History
import ReferralForest.Proofs.Forest.Orderly

/-!
# Metered Runs

A metered store admits so many calls and refuses the rest. A run on it goes step for step as on a store
without a limit until the first refusal, and an orderly program ends there with the error of the
refusal. So the limit is a threshold: with as many calls as the run makes, or more, nothing is different,
and with fewer the operation fails with just that error, however deep in its updates, its commits and
its listeners it was.

## Main definitions

* `World.calls` — the number of store calls of a run.
* `World.metered` — the world with a meter on its store.
* `Program.Threshold` — the programs for which a limit is a threshold.

## Main statements

* `World.run_metered`, `World.run_exhausted` — runs below the limit and runs that reach it.
* `Forest.threshold_of_aloof` — limits are thresholds for all operations.
-/

namespace ReferralForest

namespace Store.Base

variable {α : Type} {limit used : Nat} (call : Access)
  (run : SortedMap Key Value → α × SortedMap Key Value) (m : SortedMap Key Value)

/-- A call within the limit. -/
theorem access_metered (within : used < limit) :
    access call run ⟨m, .metered limit used⟩ =
      (.ok (run m).1, ⟨(run m).2, .metered limit (used + 1)⟩) := by
  simp [access, Policy.admit, within]

/-- The call that reaches the limit. -/
theorem access_exhausted :
    access call run ⟨m, .metered limit limit⟩ =
      (.error (.outOfGas limit), ⟨m, .metered limit (limit + 1)⟩) := by
  simp [access, Policy.admit]

end Store.Base

namespace World

variable {α : Type} {w : World} {limit used : Nat}

/-- **The number of store calls** that a program makes when it is run. -/
def calls (w : World) : Program α → Nat
  | .done _ => 0
  | .fail _ => 0
  | .ask call next =>
    (if call.counted then 1 else 0) +
      match w.answer call with
      | (.ok reply, w) => w.calls (next reply)
      | (.error _, _) => 0

/-- The world with a meter on its store, on which `used` calls of `limit` were made. -/
def metered (limit used : Nat) (w : World) : World :=
  { w with store := { w.store with base := { w.store.base with policy := .metered limit used } } }

/-- A world whose store has no branches and admits every call. -/
def Plain (w : World) : Prop := w.store.branches = [] ∧ w.store.base.policy = .free

/-- Calls open no branch and set no limit. -/
theorem Plain.answer (plain : w.Plain) (call : Call) : (w.answer call).2.Plain := by
  obtain ⟨⟨⟨entries, policy⟩, branches⟩, batch, log⟩ := w
  obtain ⟨rfl, rfl⟩ := plain
  cases call <;> exact ⟨rfl, rfl⟩

/-! ### One call -/

/-- A call within the limit is answered as without one, and the meter counts it. -/
theorem answer_metered (plain : w.Plain) (call : Call)
    (within : call.counted = true → used < limit) :
    (w.metered limit used).answer call =
      ((w.answer call).1,
        (w.answer call).2.metered limit (used + if call.counted then 1 else 0)) := by
  obtain ⟨⟨⟨entries, policy⟩, branches⟩, batch, log⟩ := w
  obtain ⟨rfl, rfl⟩ := plain
  cases call with
  | get key =>
      simp only [answer, metered, Store.get, List.findSome?_nil, Store.onBase, Store.Base.get,
        Store.Base.access_metered _ _ _ (within rfl)]
      rfl
  | write write =>
      simp only [answer, metered, Store.write, Store.onBase, Store.Base.write,
        Store.Base.access_metered _ _ _ (within rfl)]
      rfl
  | range r =>
      have hrange : Store.Base.range r ⟨entries, .metered limit used⟩ = _ :=
        Store.Base.access_metered .list _ entries (within rfl)
      simp only [answer, metered, Store.range, Store.onBase, hrange]
      rfl
  | size => rfl
  | tell entry => rfl
  | batch => rfl
  | keep b => rfl

/-- **The call that reaches the limit** is answered with a fatal refusal. -/
theorem answer_exhausted (limit : Nat) (plain : w.Plain) {call : Call}
    (counted : call.counted = true) :
    ∃ reply, call.fatal? reply = some (.exhausted s!"out of gas after {limit} operations") ∧
      ∃ w', (w.metered limit limit).answer call = (.ok reply, w') := by
  obtain ⟨⟨⟨entries, policy⟩, branches⟩, batch, log⟩ := w
  obtain ⟨rfl, rfl⟩ := plain
  cases call with
  | get key =>
      refine ⟨.error (.outOfGas limit), rfl, ?_⟩
      simp only [answer, metered, Store.get, List.findSome?_nil, Store.onBase, Store.Base.get,
        Store.Base.access_exhausted]
      exact ⟨_, rfl⟩
  | write write =>
      refine ⟨.error (.outOfGas limit), rfl, ?_⟩
      simp only [answer, metered, Store.write, Store.onBase, Store.Base.write,
        Store.Base.access_exhausted]
      exact ⟨_, rfl⟩
  | range r =>
      refine ⟨.error (.outOfGas limit), rfl, ?_⟩
      have hrange : Store.Base.range r ⟨entries, .metered limit limit⟩ = _ :=
        Store.Base.access_exhausted .list _ entries
      simp only [answer, metered, Store.range, Store.onBase, hrange]
      exact ⟨_, rfl⟩
  | size | tell | batch | keep => cases counted

/-! ### Runs -/

/-- A call counts, if it is counted, and then what follows its answer does. -/
theorem calls_ask {call : Call} {next : call.Answer → Program α} {reply : call.Answer} {w' : World}
    (h : w.answer call = (.ok reply, w')) :
    w.calls (.ask call next) = (if call.counted then 1 else 0) + w'.calls (next reply) := by
  simp only [calls, h]

/-- **A run within the limit** is the run without one, and the meter shows its calls. -/
theorem run_metered (p : Program α) (plain : w.Plain) (within : used + w.calls p ≤ limit) :
    (w.metered limit used).run p =
      ((w.run p).1, (w.run p).2.metered limit (used + w.calls p)) := by
  induction p generalizing w used with
  | done a => rfl
  | fail e => rfl
  | ask call next ih =>
      obtain ⟨reply, w', hanswer⟩ := w.exists_answer call
      rw [calls_ask hanswer] at within ⊢
      have hbelow : call.counted = true → used < limit := fun h => by
        rw [h, if_pos rfl] at within
        omega
      have hmetered := answer_metered plain call hbelow
      rw [hanswer] at hmetered
      dsimp only at hmetered
      rw [run_ask hmetered, run_ask hanswer,
        ih reply (by simpa [hanswer] using plain.answer call) (by omega), Nat.add_assoc]

/-- **A run beyond the limit** of an orderly program fails with the refusal that it meets. Its first call is
refused, or it is admitted and the refusal comes later. -/
theorem run_exhausted {p : Program α} (orderly : p.Orderly) (plain : w.Plain)
    (start : used ≤ limit) (beyond : limit < used + w.calls p) :
    ((w.metered limit used).run p).1 =
      .error (.exhausted s!"out of gas after {limit} operations") := by
  induction p generalizing w used with
  | done a => exact absurd start (Nat.not_le.mpr beyond)
  | fail e => exact absurd start (Nat.not_le.mpr beyond)
  | ask call next ih =>
      obtain ⟨reply, w', hanswer⟩ := w.exists_answer call
      have hplain : w'.Plain := by simpa [hanswer] using plain.answer call
      rw [calls_ask hanswer] at beyond
      by_cases hlimit : call.counted = true ∧ used = limit
      · obtain ⟨hcounted, rfl⟩ := hlimit
        obtain ⟨refusal, hfatal, w₁, hrefused⟩ := answer_exhausted used plain hcounted
        rw [run_ask hrefused, (orderly.2 refusal).2 _ hfatal, run_fail]
      · have hbelow : call.counted = true → used < limit := fun h =>
          lt_of_le_of_ne start fun heq => hlimit ⟨h, heq⟩
        have hmetered := answer_metered plain call hbelow
        rw [hanswer] at hmetered
        dsimp only at hmetered
        have hstart : (used + if call.counted then 1 else 0) ≤ limit := by
          split
          next h => exact hbelow h
          next => exact start
        rw [run_ask hmetered]
        exact ih reply (orderly.2 reply).1 hplain hstart (by omega)

end World

/-- **The limit is a threshold** for a program on a store that holds a map. With a limit of at least as
many calls as it makes without one, it runs as it does without one, and the meter shows the calls; with
a lower limit it fails, and the error is the refusal of the store. -/
def Program.Threshold {α : Type} (p : Program α) (m : SortedMap Key Value) : Prop :=
  let w := World.ofStore (.ofEntries m)
  ∀ limit,
    (w.calls p ≤ limit →
      (w.metered limit 0).run p = ((w.run p).1, (w.run p).2.metered limit (w.calls p))) ∧
    (limit < w.calls p →
      ((w.metered limit 0).run p).1 =
        .error (.exhausted s!"out of gas after {limit} operations"))

/-- Limits are thresholds for orderly programs. -/
theorem Program.Orderly.threshold {α : Type} {p : Program α} (orderly : p.Orderly)
    (m : SortedMap Key Value) : p.Threshold m := by
  intro limit
  have plain : (World.ofStore (.ofEntries m)).Plain := ⟨rfl, rfl⟩
  constructor
  · intro within
    rw [← Nat.zero_add (World.calls _ p)] at within ⊢
    exact World.run_metered p plain within
  · intro beyond
    rw [← Nat.zero_add (World.calls _ p)] at beyond
    exact World.run_exhausted orderly plain (Nat.zero_le limit) beyond

/-- **Running out of store calls is a clean threshold** for everything that can be asked of a forest,
if the listeners leave the store alone: for the operations that change it, for writing it out, for
showing it to a visitor, and for paying fees. -/
theorem Forest.threshold_of_aloof {host : Host} (aloof : host.Aloof) (now : Timestamp)
    (m : SortedMap Key Value) :
    (∀ op : Operation, (op.program host now).Threshold m) ∧
    Forest.exportGenesis.Threshold m ∧
    (∀ {σ : Type} (visitor : σ → AccountId → Record → σ × Visit) (s : σ),
      (Forest.visit host now visitor s).Threshold m) ∧
    ∀ account total, (Forest.payFees host account total).Threshold m :=
  ⟨fun op => (op.orderly_program aloof now).threshold m,
    orderly_exportGenesis.threshold m,
    fun visitor s => (orderly_visit aloof now visitor s).threshold m,
    fun account total => (orderly_payFees account total).threshold m⟩

/-- A host with one listener, which notes what it is told and looks nothing up. -/
def Host.attentive : Host where
  __ := Host.standalone
  listeners := [(.stakeChanged, .recording 0 .stakeChanged none false none)]

/-- The listener of that host leaves the store alone. -/
theorem Host.aloof_attentive : Host.attentive.Aloof := by
  rintro entry hentry account
  obtain rfl := List.mem_singleton.mp hentry
  exact ⟨rfl, fun _ => trivial⟩

/-- The small forest, and one unit of stake less for its leaf: 6 calls of the store, and each lower limit
is met with just the refusal. -/
theorem Forest.threshold_of_aloof_small :
    let m := (Forest.after Host.standalone SmallHistory.turns).view
    let p := (Operation.changeStake SmallHistory.leaf (-1)).program Host.attentive ⟨1000⟩
    Host.attentive.Aloof ∧ (World.ofStore (.ofEntries m)).calls p = 6 ∧
      ∀ limit < 6, (((World.ofStore (.ofEntries m)).metered limit 0).run p).1 =
        .error (.exhausted s!"out of gas after {limit} operations") := by
  intro m p
  have hcalls : (World.ofStore (.ofEntries m)).calls p = 6 := by decide +kernel
  refine ⟨Host.aloof_attentive, hcalls, fun limit hlimit => ?_⟩
  exact ((threshold_of_aloof Host.aloof_attentive ⟨1000⟩ m).1
    (.changeStake SmallHistory.leaf (-1)) limit).2 (by rwa [← hcalls] at hlimit)

end ReferralForest

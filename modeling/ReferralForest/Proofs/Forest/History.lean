import ReferralForest.Proofs.Forest.Operations

/-!
# Histories

A forest begins as an empty store and takes one turn after another. A turn is an operation in a block:
it runs in a branch of its own, which is committed if the operation succeeds and dropped if it fails.
Every property of all stores that can come about in this way is proved by induction over the turns,
with one case for a turn that fails and one for the moves of a turn that succeeds.

## Main definitions

* `Turn`, `Turn.outcome` — an operation in a block, and what comes of it.
* `Forest.after` — the store after a history.
* `Store.Holds` — the records a store holds, as the operations read them.
* `Host.standalone`, `SmallHistory.turns` — a host and a history to try things on.

## Main statements

* `Forest.keeps_outcome` — what a turn does to the ledger of a store.
* `Forest.after_induction` — induction over histories.
* `Forest.invariant` — what each move keeps holds after every history.
-/

namespace ReferralForest

/-- An operation, and the time of the block in which it is carried out. -/
structure Turn where
  /-- The time of the block. -/
  time : Timestamp
  /-- The operation. -/
  operation : Operation

/-- **What comes of a turn** on a store: the operation runs in a branch of its own, which is committed
if it succeeds and dropped if it fails. -/
def Turn.outcome (host : Host) (turn : Turn) (store : Store) : Except Error Unit × World :=
  (World.ofStore store).transact (turn.operation.program host turn.time)

/-- **The store after a history**, whose turns are given latest first. -/
def Forest.after (host : Host) : List Turn → Store
  | [] => .empty
  | turn :: earlier => (turn.outcome host (after host earlier)).2.store

/-- **The records a store holds**: looking up any account gives what the roster has for it. -/
def Store.Holds (store : Store) (m : Roster) : Prop :=
  ∀ a, (World.ofStore store).run (Program.record? a) = (.ok (m.get? a), World.ofStore store)

namespace Forest

variable {host : Host}

/-- A world that keeps a ledger holds its records. -/
theorem holds_of_keeps {store : Store} {L : Ledger} (h : (World.ofStore store).Keeps L) :
    store.Holds L.records :=
  fun a => h.run_record? a

/-- The empty store keeps nothing. -/
theorem keeps_empty : (World.ofStore .empty).Keeps .empty :=
  ⟨rfl, Ledger.storedIn_empty⟩

/-- **A turn** on a store that keeps a ledger fails and leaves the ledger, or it succeeds and leads to
another one by moves of its operation. -/
theorem keeps_outcome (quiet : host.Quiet) {store : Store} {L : Ledger}
    (keeps : (World.ofStore store).Keeps L) (inStep : L.InStep) (turn : Turn) :
    ∃ L', (World.ofStore (turn.outcome host store).2.store).Keeps L' ∧ L'.InStep ∧
      ((∃ e, (turn.outcome host store).1 = .error e) ∧ L' = L ∨
        (turn.outcome host store).1 = .ok () ∧
          ∃ ms, turn.operation.Makes turn.time ms ∧ Ledger.Path ms L L') := by
  cases hout : turn.outcome host store with
  | mk result w =>
      cases result with
      | error e =>
          have hsame : w.store = store := World.transact_error keeps.free hout
          exact ⟨L, hsame.symm ▸ keeps, inStep, .inl ⟨⟨e, rfl⟩, rfl⟩⟩
      | ok u =>
          obtain ⟨w₁, hrun, hfree, hview⟩ := World.transact_ok keeps.free hout
          have hfull := keeps.stored.full
          obtain ⟨L', hkeeps', ms, hmakes, hpath⟩ :=
            turn.operation.leads_program quiet hfull inStep turn.time _ _ _ keeps.branch hrun
          have hstep' : Roster.Full L'.records ∧ L'.InStep :=
            hpath.invariant (I := fun M => Roster.Full M.records ∧ M.InStep)
              (fun m _ _ _ htakes hM => ⟨htakes.full hM.1, htakes.inStep hM.1 hM.2⟩)
              ⟨hfull, inStep⟩
          exact ⟨L', ⟨hfree, hview.symm ▸ hkeeps'.stored⟩, hstep'.2, .inr ⟨rfl, ms, hmakes, hpath⟩⟩

/-- **Induction over histories.** A property of a history and of the ledger it leads to holds always if
it holds at the beginning, for a turn that fails with the ledger before it, and for a turn that
succeeds with the ledger to which its moves lead. -/
theorem after_induction (quiet : host.Quiet) {I : List Turn → Ledger → Prop}
    (start : I [] .empty)
    (failed : ∀ turn earlier L e w, I earlier L →
      turn.outcome host (after host earlier) = (.error e, w) → I (turn :: earlier) L)
    (taken : ∀ turn earlier L ms L' w, I earlier L → (World.ofStore (after host earlier)).Keeps L →
      L.InStep → turn.outcome host (after host earlier) = (.ok (), w) →
      turn.operation.Makes turn.time ms → Ledger.Path ms L L' → I (turn :: earlier) L')
    (turns : List Turn) :
    ∃ L, (World.ofStore (after host turns)).Keeps L ∧ L.InStep ∧ I turns L := by
  induction turns with
  | nil => exact ⟨.empty, keeps_empty, .empty, start⟩
  | cons turn earlier ih =>
      obtain ⟨L, hkeeps, hstep, hI⟩ := ih
      obtain ⟨L', hkeeps', hstep', ⟨⟨e, hfailed⟩, rfl⟩ | ⟨hok, ms, hmakes, hpath⟩⟩ :=
        keeps_outcome quiet hkeeps hstep turn
      · exact ⟨L', hkeeps', hstep', failed turn earlier L' e _ hI (Prod.ext hfailed rfl)⟩
      · exact ⟨L', hkeeps', hstep',
          taken turn earlier L ms L' _ hI hkeeps hstep (Prod.ext hok rfl) hmakes hpath⟩

/-- **What each move of a history keeps** holds after it. -/
theorem invariant (quiet : host.Quiet) {Inv : Ledger → Prop} {turns : List Turn}
    (start : Inv .empty)
    (step : ∀ turn ∈ turns, ∀ m, turn.operation.Allows turn.time m → ∀ L L',
      Roster.Full L.records → L.InStep → m.Takes L L' → Inv L → Inv L') :
    ∃ L, (World.ofStore (after host turns)).Keeps L ∧ L.InStep ∧ Inv L := by
  have hall := after_induction quiet (I := fun past L => (∀ turn ∈ past, turn ∈ turns) → Inv L)
    (fun _ => start) (fun turn earlier L e w hI _ hpast =>
      hI fun t ht => hpast t (List.mem_cons_of_mem _ ht)) ?_ turns
  · obtain ⟨L, hkeeps, hstep, hI⟩ := hall
    exact ⟨L, hkeeps, hstep, hI fun _ ht => ht⟩
  · intro turn earlier L ms L' w hI hkeeps hstep _ hmakes hpath hpast
    have hbefore : Roster.Full L.records ∧ L.InStep ∧ Inv L :=
      ⟨hkeeps.stored.full, hstep, hI fun t ht => hpast t (List.mem_cons_of_mem _ ht)⟩
    have hafter := hpath.invariant
      (I := fun M => Roster.Full M.records ∧ M.InStep ∧ Inv M)
      (fun m hm M M' htakes hM => ⟨htakes.full hM.1, htakes.inStep hM.1 hM.2.1,
        step turn (hpast turn List.mem_cons_self) m (hmakes.allows hm) M M' hM.1 hM.2.1 htakes hM.2.2⟩)
      hbefore
    exact hafter.2.2

end Forest

/-! ### A small history -/

/-- A host with one listener, which looks every account up. -/
def Host.standalone : Host where
  codec := .plain ""
  bank := .offline
  bondDenom := "unit"
  listeners := [(.stakeChanged, .recording 0 .stakeChanged none true none)]
  authority := ⟨"authority", by decide, by decide⟩
  moduleAccount := Host.defaultModuleAccount

/-- The listener of the small host writes nothing. -/
theorem Host.quiet_standalone : Host.standalone.Quiet := by
  rintro entry hentry account
  obtain rfl := List.mem_singleton.mp hentry
  exact Host.silent_recording 0 .stakeChanged none true none account

namespace SmallHistory

/-- The root of the small forest. -/
def root : AccountId := ⟨"root", by decide, by decide⟩

/-- Its only referral. -/
def leaf : AccountId := ⟨"leaf", by decide, by decide⟩

/-- A root enters, a referral enters below it and gets a stake, and a block begins; latest first. -/
def turns : List Turn :=
  [⟨⟨900⟩, .beginBlock⟩, ⟨⟨20⟩, .changeStake leaf 100000000⟩, ⟨⟨10⟩, .append root leaf⟩,
    ⟨⟨0⟩, .addRoot root .new⟩]

end SmallHistory

end ReferralForest

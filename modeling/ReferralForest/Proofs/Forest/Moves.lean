import ReferralForest.Forest.Downgrades
import ReferralForest.Forest.Snapshot
import ReferralForest.Proofs.Cascade.Spread

/-!
# Moves

Every operation changes the ledger by *moves*: an account enters as a root or below a referrer, a
stake changes, an account is made active or inactive, an entry of the downgrade queue is handled, a
downgrade is scheduled from a document, or the parameters are replaced. A property of all reachable
ledgers is proved move by move.

## Main definitions

* `Move`, `Move.Takes` — the moves, and from which ledger to which each leads.
* `Ledger.Path` — moves made one after another.
* `Ledger.InStep` — the downgrade queue and the schedules in the records agree.

## Main statements

* `Move.Takes.full`, `Move.Takes.inStep` — a move keeps all records full and the queue in step.
* `Cascade.takes_of_register`, `Cascade.path_of_importDowngrades`, `Cascade.takes_of_downgrade` — the
  cascades that are no walks are moves.
-/

namespace ReferralForest

/-- A change of the ledger. -/
inductive Move where
  /-- The parameters are replaced. -/
  | setParams (p : Params)
  /-- An account enters as a root. -/
  | addRoot (account : AccountId) (status : Status)
  /-- An account enters below a referrer and nothing is settled. -/
  | addReferral (parent child : AccountId) (status : Status)
  /-- An account enters below a referrer, and the accounts above it are settled. -/
  | register (now : Timestamp) (parent child : AccountId)
  /-- The stake of an account changes. -/
  | changeStake (now : Timestamp) (account : AccountId) (delta : Int)
  /-- An account is made active or inactive. -/
  | setActive (checkAt : Option Timestamp) (account : AccountId) (active : Bool)
  /-- A downgrade is scheduled in place of the one there is. -/
  | reschedule (time : Timestamp) (account : AccountId)
  /-- A due entry of the queue is handled. -/
  | lower (now time : Timestamp) (account : AccountId)

namespace Ledger

/-- The ledger without the queue entry of a schedule. -/
def unschedule (L : Ledger) (scheduled : Option Timestamp) (a : AccountId) : Ledger :=
  match scheduled with
  | some t => L.dequeue t a
  | none => L

/-- Taking an entry out of the queue changes no record. -/
@[simp] theorem records_unschedule (L : Ledger) (scheduled : Option Timestamp) (a : AccountId) :
    (L.unschedule scheduled a).records = L.records := by
  cases scheduled <;> rfl

/-- Taking an entry out of the queue changes no parameters. -/
@[simp] theorem params_unschedule (L : Ledger) (scheduled : Option Timestamp) (a : AccountId) :
    (L.unschedule scheduled a).params = L.params := by
  cases scheduled <;> rfl

/-- **The downgrade queue and the records agree**: the entries of the queue are the schedules in the
records. -/
def InStep (L : Ledger) : Prop :=
  ∀ t a, (t, a) ∈ L.queue ↔ ∃ r, L.records.get? a = some r ∧ r.downgradeAt = some t

end Ledger

/-- A record that loses its tier, if there is a lower one. -/
def Record.lowered (r : Record) : Record :=
  { r with downgradeAt := none, status := r.status.prev?.getD r.status }

/-- **From which ledger to which a move leads.** -/
inductive Move.Takes : Move → Ledger → Ledger → Prop
  | setParams {L : Ledger} {p : Params} (valid : p.validate = .ok ()) :
      Takes (.setParams p) L (L.setParams p)
  | addRoot {L : Ledger} {a : AccountId} {s : Status} (fresh : L.records.get? a = none) :
      Takes (.addRoot a s) L (L.put a (.fresh none s))
  | addReferral {L : Ledger} {p c : AccountId} {s : Status} (fresh : L.records.get? c = none)
      (placed : L.records.get? p ≠ none) :
      Takes (.addReferral p c s) L ((L.put c (.fresh (some p) s)).relate p c)
  | register {L L₁ L' : Ledger} {now : Timestamp} {p c : AccountId}
      (fresh : L.records.get? c = none) (placed : L.records.get? p ≠ none)
      (parent : Ledger.Walk (Edit.touch now) (L.put c (.fresh (some p) .new)) L₁)
      (above : Ledger.Walk (Edit.touch now) (L₁.relate p c) L') : Takes (.register now p c) L L'
  | changeStake {L : Ledger} {D : Draft} {now : Timestamp} {a : AccountId} {delta : Int} {bound : Nat}
      (course : (Cascade.changeStake now a delta bound).Yields L.draft () D) :
      Takes (.changeStake now a delta) L D.toLedger
  | setActive {L : Ledger} {D : Draft} {checkAt : Option Timestamp} {a : AccountId} {active : Bool}
      (course : (Cascade.setActive checkAt a active).Yields L.draft () D) :
      Takes (.setActive checkAt a active) L D.toLedger
  | reschedule {L : Ledger} {t : Timestamp} {a : AccountId} {r : Record}
      (found : L.records.get? a = some r) :
      Takes (.reschedule t a) L
        (((L.unschedule r.downgradeAt a).enqueue t a).put a { r with downgradeAt := some t })
  | lower {L L' : Ledger} {now t : Timestamp} {a : AccountId} {r r' : Record}
      (found : L.records.get? a = some r) (scheduled : r.downgradeAt = some t) (due : t ≤ now)
      (settles : (L.dequeue t a).Settles a (some now) r.lowered r' L') :
      Takes (.lower now t a) L (L'.put a r')

namespace Ledger

/-- **Moves made one after another.** -/
inductive Path : List Move → Ledger → Ledger → Prop
  | nil {L : Ledger} : Path [] L L
  | cons {m : Move} {ms : List Move} {L L₁ L' : Ledger} (first : m.Takes L L₁)
      (rest : Path ms L₁ L') : Path (m :: ms) L L'

variable {L L₁ L' : Ledger} {ms ms' : List Move}

/-- One move is a path. -/
theorem Path.single {m : Move} (h : m.Takes L L') : Path [m] L L' := .cons h .nil

/-- One path after another is a path. -/
theorem Path.append (h : Path ms L L₁) (h' : Path ms' L₁ L') : Path (ms ++ ms') L L' := by
  induction h with
  | nil => exact h'
  | cons first rest ih => exact .cons first (ih h')

/-- **What each move keeps, a path keeps.** -/
theorem Path.invariant {I : Ledger → Prop} (h : Path ms L L')
    (step : ∀ m ∈ ms, ∀ L L', m.Takes L L' → I L → I L') (hI : I L) : I L' := by
  induction h with
  | nil => exact hI
  | cons first rest ih =>
      exact ih (fun m hm => step m (List.mem_cons_of_mem _ hm))
        (step _ List.mem_cons_self _ _ first hI)

end Ledger

/-! ### Full records -/

/-- A new record is full. -/
@[simp] theorem Record.length_fresh (referrer : Option AccountId) (status : Status) :
    (Record.fresh referrer status).generations.length = generationCount :=
  List.length_replicate

/-- **A move keeps all records full.** -/
theorem Move.Takes.full {m : Move} {L L' : Ledger} (h : m.Takes L L')
    (full : Roster.Full L.records) : Roster.Full L'.records := by
  cases h with
  | setParams => exact full
  | addRoot => exact full.insert (Record.length_fresh _ _)
  | addReferral => exact full.insert (Record.length_fresh _ _)
  | register fresh placed parent above =>
      exact above.full (parent.full (full.insert (Record.length_fresh _ _)))
  | changeStake course => exact (Cascade.walk_changeStake full course).full full
  | setActive course => exact (Cascade.walk_setActive full course).full full
  | reschedule found =>
      next t a r =>
        rw [Ledger.put, Ledger.enqueue, Ledger.records_unschedule]
        exact full.insert (full a r found)
  | lower found scheduled due settles =>
      obtain ⟨s, t, rfl⟩ := settles.exists_eq_update
      have hlength := full _ _ found
      rw [Ledger.put, settles.records_eq]
      exact full.insert hlength

/-! ### The queue in step -/

namespace Ledger.InStep

variable {L L' : Ledger} {a : AccountId} {r r' : Record}

/-- Nothing is queued and nothing scheduled. -/
theorem empty : Ledger.empty.InStep := by
  intro t a
  simp [Ledger.empty]

/-- The queue is in step with a record put if it is so elsewhere. -/
theorem put_iff : (L.put a r).InStep ↔ (∀ t, (t, a) ∈ L.queue ↔ r.downgradeAt = some t) ∧
    ∀ t b, b ≠ a → ((t, b) ∈ L.queue ↔ ∃ s, L.records.get? b = some s ∧ s.downgradeAt = some t) := by
  classical
  constructor
  · intro h
    refine ⟨fun t => ?_, fun t b hb => ?_⟩
    · have := h t a
      simpa [Ledger.put] using this
    · have := h t b
      rwa [Ledger.put, SortedMap.get?_insert_of_ne _ _ hb] at this
  · rintro ⟨hself, hother⟩ t b
    by_cases hb : b = a
    · subst hb
      simpa [Ledger.put] using hself t
    · rw [Ledger.put, SortedMap.get?_insert_of_ne _ _ hb]
      exact hother t b hb

/-- The queue is in step with a record that keeps its schedule. -/
theorem put (h : L.InStep) (found : L.records.get? a = some r)
    (same : r'.downgradeAt = r.downgradeAt) : (L.put a r').InStep := by
  refine put_iff.mpr ⟨fun t => ?_, fun t b _ => h t b⟩
  rw [h t a, same]
  simp [found]

/-- The queue is in step with a new account that is not scheduled. -/
theorem put_fresh (h : L.InStep) (fresh : L.records.get? a = none) (hr : r.downgradeAt = none) :
    (L.put a r).InStep := by
  refine put_iff.mpr ⟨fun t => ?_, fun t b _ => h t b⟩
  rw [h t a, hr]
  simp [fresh]

/-- **Settling keeps the queue in step.** -/
theorem settle {checkAt : Option Timestamp} (h : (L.put a r).InStep)
    (settles : L.Settles a checkAt r r' L') : (L'.put a r').InStep := by
  obtain ⟨hself, hother⟩ := put_iff.mp h
  refine put_iff.mpr ⟨settles.queue_iff hself, fun t b hb => ?_⟩
  rw [settles.mem_queue_of_ne hb, settles.records_eq]
  exact hother t b hb

/-- A walk keeps the queue in step. -/
theorem walk {P : Edit} (h : L.InStep) (walk : Walk P L L') : L'.InStep := by
  refine walk.invariant (fun M M' hs hM => ?_) h
  obtain ⟨found, edits, -, settles⟩ := hs
  exact (hM.put found edits.downgradeAt).settle settles

/-- A record has one entry in the queue at most. -/
theorem eq_of_mem (h : L.InStep) {s t : Timestamp} (hs : (s, a) ∈ L.queue) (ht : (t, a) ∈ L.queue) :
    s = t := by
  obtain ⟨r, hr, hrs⟩ := (h s a).mp hs
  obtain ⟨r', hr', hrt⟩ := (h t a).mp ht
  obtain rfl := Option.some.inj (hr.symm.trans hr')
  exact Option.some.inj (hrs.symm.trans hrt)

/-- Taking an account's entry out of the queue leaves it without one. -/
theorem not_mem_unschedule (h : L.InStep) (found : L.records.get? a = some r) (t : Timestamp) :
    (t, a) ∉ (L.unschedule r.downgradeAt a).queue := by
  intro ht
  cases hs : r.downgradeAt with
  | some s =>
      rw [hs] at ht
      obtain ⟨hmem, hne⟩ := ht
      have hsmem : (s, a) ∈ L.queue := (h s a).mpr ⟨r, found, hs⟩
      exact hne (by rw [h.eq_of_mem hmem hsmem]; rfl)
  | none =>
      rw [hs] at ht
      obtain ⟨r', hr', ht'⟩ := (h t a).mp ht
      obtain rfl := Option.some.inj (found.symm.trans hr')
      rw [hs] at ht'
      contradiction

/-- Taking an account's entry out of the queue leaves the entries of others. -/
theorem mem_unschedule_of_ne {scheduled : Option Timestamp} {t : Timestamp} {b : AccountId}
    (hb : b ≠ a) : (t, b) ∈ (L.unschedule scheduled a).queue ↔ (t, b) ∈ L.queue := by
  cases scheduled with
  | some s => exact and_iff_left fun e => hb (Prod.mk.inj e).2
  | none => rfl

/-- Taking an account out of the queue and off its record keeps the queue in step. -/
theorem put_unschedule (h : L.InStep) (found : L.records.get? a = some r)
    (hr' : r'.downgradeAt = none) : ((L.unschedule r.downgradeAt a).put a r').InStep := by
  refine put_iff.mpr ⟨fun t => ?_, fun t b hb => ?_⟩
  · simp [h.not_mem_unschedule found t, hr']
  · rw [mem_unschedule_of_ne hb, records_unschedule]
    exact h t b

/-- Putting an unscheduled account into the queue and onto its record keeps the queue in step. -/
theorem put_enqueue (h : (L.put a r).InStep) (hr : r.downgradeAt = none) (t : Timestamp)
    (hr' : r'.downgradeAt = some t) : ((L.enqueue t a).put a r').InStep := by
  obtain ⟨hself, hother⟩ := put_iff.mp h
  refine put_iff.mpr ⟨fun u => ?_, fun u b hb => ?_⟩
  · have hnot : (u, a) ∉ L.queue := by simp [hself u, hr]
    simp [Ledger.enqueue, hnot, hr', eq_comm]
  · have hne : (u, b) ≠ (t, a) := fun e => hb (Prod.mk.inj e).2
    exact (Set.mem_insert_iff.trans (or_iff_right hne)).trans (hother u b hb)

end Ledger.InStep

/-- **A move keeps the queue in step.** -/
theorem Move.Takes.inStep {m : Move} {L L' : Ledger} (h : m.Takes L L')
    (full : Roster.Full L.records) (inStep : L.InStep) : L'.InStep := by
  cases h with
  | setParams => exact inStep
  | addRoot fresh => exact inStep.put_fresh fresh rfl
  | addReferral fresh => exact inStep.put_fresh fresh rfl
  | register fresh placed parent above =>
      next L₁ now p c =>
        have hparent : L₁.InStep := (inStep.put_fresh fresh rfl).walk parent
        have hrelated : (L₁.relate p c).InStep := hparent
        exact hrelated.walk above
  | changeStake course => exact inStep.walk (Cascade.walk_changeStake full course)
  | setActive course => exact inStep.walk (Cascade.walk_setActive full course)
  | reschedule found =>
      next t a r =>
        have hoff : ((L.unschedule r.downgradeAt a).put a { r with downgradeAt := none }).InStep :=
          inStep.put_unschedule found rfl
        exact hoff.put_enqueue rfl t rfl
  | lower found scheduled due settles =>
      next L₂ now t a r r' =>
        have hoff : ((L.unschedule r.downgradeAt a).put a r.lowered).InStep :=
          inStep.put_unschedule found rfl
        rw [scheduled] at hoff
        exact hoff.settle settles

/-! ### Cascades that are moves -/

namespace Cascade

variable {L : Ledger} {D D' : Draft}

/-- **Registering an account is a move.** -/
theorem takes_of_register {now : Timestamp} {p c : AccountId} {u : Unit}
    (full : Roster.Full L.records) (fresh : L.records.get? c = none)
    (placed : L.records.get? p ≠ none) (h : (register now p c).Yields L.draft u D') :
    (Move.register now p c).Takes L D'.toLedger := by
  obtain ⟨_, D₀, hput, h⟩ := yields_bind.mp h
  rw [yields_put] at hput
  subst hput
  obtain ⟨grandparent, D₁, htouch, h⟩ := yields_bind.mp h
  obtain ⟨_, D₂, hrelate, h⟩ := yields_bind.mp h
  rw [yields_relate] at hrelate
  subst hrelate
  obtain ⟨_, D₃, hannounce, h⟩ := yields_bind.mp h
  rw [yields_announce] at hannounce
  subst hannounce
  have hfull : Roster.Full (L.put c (.fresh (some p) .new)).records :=
    full.insert (Record.length_fresh _ _)
  have hparent := walk_touch (D := L.draft.withLedger (L.put c (.fresh (some p) .new))) hfull htouch
  have habove := walk_touchAncestors
    (D := (D₁.withLedger (D₁.toLedger.relate p c)).announce ⟨p, .stakeChanged⟩)
    (hparent.full hfull) h
  exact .register fresh placed hparent habove

/-- Puts an account into the queue in place of the entry it has. -/
def rescheduled (t : Timestamp) (a : AccountId) (r : Record) : Cascade (Unit × Record) := do
  match r.downgradeAt with
  | some previous => dequeue previous a
  | none => pure ()
  enqueue t a
  return ((), { r with downgradeAt := some t })

/-- The change of a record whose downgrade is scheduled from a document. -/
theorem yields_rescheduled {t : Timestamp} {a : AccountId} {r r' : Record} {u : Unit} :
    (rescheduled t a r).Yields D (u, r') D' ↔
      D' = D.withLedger ((D.toLedger.unschedule r.downgradeAt a).enqueue t a) ∧
        r' = { r with downgradeAt := some t } := by
  rw [rescheduled]
  dsimp only
  cases hd : r.downgradeAt with
  | none =>
      simp only [yields_bind, yields_enqueue, Dialogue.pure_def, yields_done, Prod.mk.injEq,
        true_and]
      constructor
      · rintro ⟨_, _, rfl, rfl, rfl⟩
        exact ⟨rfl, rfl⟩
      · rintro ⟨rfl, rfl⟩
        exact ⟨(), _, rfl, rfl, rfl⟩
  | some previous =>
      simp only [yields_bind, yields_dequeue, yields_enqueue, Dialogue.pure_def, yields_done,
        Prod.mk.injEq, true_and]
      constructor
      · rintro ⟨_, _, rfl, _, _, rfl, rfl, rfl⟩
        exact ⟨rfl, rfl⟩
      · rintro ⟨rfl, rfl⟩
        exact ⟨(), _, rfl, (), _, rfl, rfl, rfl⟩

/-- **Scheduling downgrades from a document** is a path of moves, which schedule accounts that the document
names. -/
theorem path_of_importDowngrades {host : Host} {l : List PendingDowngrade} {u : Unit}
    (full : Roster.Full D.records) (h : (importDowngrades host l).Yields D u D') :
    ∃ ms, Ledger.Path ms D.toLedger D'.toLedger ∧
      ∀ m ∈ ms, ∃ d ∈ l, ∃ a, host.parseAddress d.account = .ok a ∧ m = .reschedule d.time a := by
  induction l generalizing D with
  | nil =>
      obtain ⟨-, rfl⟩ := yields_done.mp h
      exact ⟨[], .nil, by simp⟩
  | cons d rest ih =>
      obtain ⟨a, D₀, hparse, hcourse⟩ := yields_bind.mp h
      obtain ⟨haddress, rfl⟩ := yields_ofExcept.mp hparse
      obtain ⟨result, D₁, hupdate, hrest⟩ := yields_bind.mp hcourse
      have hchange : (update none a (rescheduled d.time a)).Yields D₀ result D₁ := hupdate
      have later : ∀ {ms : List Move}, (∀ m ∈ ms, ∃ d ∈ rest, ∃ a,
          host.parseAddress d.account = .ok a ∧ m = .reschedule d.time a) →
          ∀ m ∈ ms, ∃ e ∈ d :: rest, ∃ a, host.parseAddress e.account = .ok a ∧
            m = .reschedule e.time a := by
        intro ms hms m hm
        obtain ⟨e, he, hnamed⟩ := hms m hm
        exact ⟨e, List.mem_cons_of_mem _ he, hnamed⟩
      obtain ⟨-, -, rfl⟩ | ⟨r, b, r₁, D₂, r₂, L₂, hr, hresched, settles, -, hD₁⟩ :=
        yields_update hchange
      · obtain ⟨ms, hpath, hms⟩ := ih full hrest
        exact ⟨ms, hpath, later hms⟩
      · rw [Record.normalize_of_length (full a r hr).ge] at hresched
        obtain ⟨rfl, rfl⟩ := yields_rescheduled.mp hresched
        cases settles
        have htakes : (Move.reschedule d.time a).Takes D₀.toLedger D₁.toLedger := by
          rw [hD₁]
          exact .reschedule hr
        obtain ⟨ms, hpath, hms⟩ := ih (htakes.full full) hrest
        refine ⟨.reschedule d.time a :: ms, .cons htakes hpath, List.forall_mem_cons.mpr ⟨?_, later hms⟩⟩
        exact ⟨d, List.mem_cons_self, a, haddress, rfl⟩

/-- The change of a record whose due entry is handled. -/
theorem yields_lower {now t : Timestamp} {a : AccountId} {r r' : Record} {b : Bool}
    (scheduled : r.downgradeAt = some t) (due : t ≤ now)
    (h : (lower now a r).Yields D (b, r') D') : D'.toLedger = D.toLedger ∧ r' = r.lowered := by
  have hnot : ¬ now < t := Timestamp.not_lt.mpr due
  simp only [lower, scheduled, hnot, if_false] at h
  rw [Record.lowered]
  cases hprev : r.status.prev? with
  | none =>
      rw [hprev] at h
      obtain ⟨hr, rfl⟩ := yields_done.mp h
      exact ⟨rfl, (Prod.mk.inj hr).2⟩
  | some below =>
      rw [hprev] at h
      simp only [yields_bind, yields_tell, Dialogue.pure_def, yields_done] at h
      obtain ⟨_, _, rfl, hr, rfl⟩ := h
      exact ⟨rfl, (Prod.mk.inj hr).2⟩

/-- **Handling a due entry of the queue is a move.** -/
theorem takes_of_downgrade {now t : Timestamp} {a : AccountId} {u : Unit}
    (full : Roster.Full L.records) (inStep : L.InStep) (queued : (t, a) ∈ L.queue) (due : t ≤ now)
    (h : (downgrade now a).Yields (L.dequeue t a).draft u D') :
    (Move.lower now t a).Takes L D'.toLedger := by
  obtain ⟨lowered, D₁, hupdate, h⟩ := yields_bind.mp h
  have hledger : D'.toLedger = D₁.toLedger := by
    split at h
    · rw [yields_announce] at h
      rw [h, Draft.toLedger_announce]
    · rw [(yields_done.mp h).2]
  obtain ⟨r, hr, hscheduled⟩ := (inStep t a).mp queued
  obtain ⟨hnone, -, -⟩ | ⟨r', b, r₁, D₂, r₂, L₂, hr', hlower, settles, -, hD₁⟩ :=
    yields_update hupdate
  · exact absurd (hnone.symm.trans hr) (by simp)
  · obtain rfl : r' = r := Option.some.inj (hr'.symm.trans hr)
    rw [Record.normalize_of_length (full a r' hr).ge] at hlower
    obtain ⟨hD₂, rfl⟩ := yields_lower hscheduled due hlower
    rw [hD₂] at settles
    rw [hledger, hD₁]
    exact .lower hr hscheduled due settles

end Cascade

end ReferralForest

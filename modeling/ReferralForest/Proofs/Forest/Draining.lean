import Mathlib.Data.List.Sort
import ReferralForest.Proofs.Forest.Chronicle
import ReferralForest.Proofs.Forest.Grace
import ReferralForest.Proofs.Forest.Scheduled

/-!
# Draining the Queue

The queue is read once, up to the time of the block, and then its entries are handled one by one, each
in a commit of its own. Handling an entry may put the account back into the queue, even under the key that
was just taken out if the grace period is zero. It is not handled again: what is handled was read before.
So every account that is due loses one tier, whatever the grace period.

## Main definitions

* `Record.demoted`, `Record.demotionNotices` — what is left of a record that is due, and what is told of it.
* `Ledger.Demotes` — what handling entries of the queue does to a ledger.
* `Roster.Drained` — what draining the queue does to the records and to the queue.
* `Store.Drains` — what draining the queue does to a store.

## Main statements

* `Ledger.Settles.eq_demoted` — a record that loses a tier and is checked is left as described.
* `Ledger.Demotes.mem_queue_iff` — who is in the queue when it has been drained.
* `Forest.recounts_demotes` — what the drain of a queue recounts.
* `Forest.drains_after` — what draining the queue does after every history.
-/

namespace ReferralForest

/-! ### Records -/

/-- **What is left of a record** whose schedule is due: it has the tier that is left of its own, and it is
scheduled for a grace period later just if it fails the requirement of that tier. -/
def Record.demoted (now : Timestamp) (grace : UInt64) (r : Record) : Record :=
  { r with
    status := r.status.demoted
    downgradeAt := if r.status.demoted.metBy r then none else now.add? grace }

/-- What is told of a tier, if it changes. -/
def Notice.ofTier (a : AccountId) (before after : Status) : List Notice :=
  if before = after then [] else [.statusUpdated a before after]

/-- What is told of a schedule, if it is made. -/
def Notice.ofSchedule (a : AccountId) (time : Option Timestamp) : List Notice :=
  (time.map (.willBeDowngraded a)).toList

/-- **What is told of a record** whose schedule is due. -/
def Record.demotionNotices (now : Timestamp) (grace : UInt64) (a : AccountId) (r : Record) :
    List Notice :=
  Notice.ofTier a r.status r.status.demoted ++ Notice.ofSchedule a (r.demoted now grace).downgradeAt

namespace Status

/-- The tier below is left of a tier, except that the unset one stays for a while. -/
theorem getD_prev?_or (s : Status) :
    s.prev?.getD s = s.demoted ∨ s.prev?.getD s = s ∧ s = .unspecified := by
  cases s <;> decide

/-- A higher tier is another one. -/
theorem ne_of_lt {s t : Status} (h : s < t) : s ≠ t := by
  rintro rfl
  exact lt_irrefl s h

end Status

/-- A lowered record is left with the tier that is left of its own, or it has the unset one. -/
theorem Record.status_lowered_or (r : Record) :
    r.lowered.status = r.status.demoted ∨ r.lowered.status = r.status ∧ r.status = .unspecified :=
  r.status.getD_prev?_or

/-- A lowered record meets the requirement of its tier just if it meets that of the tier it is left
with. -/
theorem Record.metBy_lowered (r : Record) :
    r.lowered.status.metBy r.lowered = r.status.demoted.metBy r := by
  have hmeasures : r.lowered.measures = r.measures := rfl
  rw [Status.metBy_congr hmeasures]
  obtain hsame | ⟨hsame, hunset⟩ := r.status_lowered_or
  · rw [hsame]
  · rw [hsame, hunset]
    rfl

/-- A lowered record that will not climb back climbs to the tier it is left with. -/
theorem Record.Wanting.climb_lowered {r : Record} (h : r.Wanting) (scheduled : r.downgradeAt ≠ none) :
    Cascade.climb r.lowered r.lowered.status = r.status.demoted := by
  have hmeasures : r.lowered.measures = r.measures := rfl
  have hstays : Cascade.climb r.lowered r.status.demoted = r.status.demoted :=
    Cascade.climb_eq_self fun t ht => (Status.metBy_congr hmeasures t).trans (h scheduled t ht)
  obtain hsame | ⟨hsame, hunset⟩ := r.status_lowered_or
  · rw [hsame, hstays]
  · have hnew : Cascade.climb r.lowered .unspecified = Cascade.climb r.lowered .new :=
      Cascade.climb_of_met rfl rfl
    rw [hunset] at hstays ⊢
    rw [hsame, hunset, hnew]
    exact hstays

/-- **A record that loses a tier** and is checked is left as described, and it is scheduled again if it
fails the requirement of the tier that it is left with. -/
theorem Ledger.Settles.eq_demoted {L L' : Ledger} {a : AccountId} {now : Timestamp} {r r' : Record}
    (h : L.Settles a (some now) r.lowered r' L') (wanting : r.Wanting)
    (scheduled : r.downgradeAt ≠ none) :
    r' = r.demoted now (L.params.getD .default).gracePeriod ∧
      (r.status.demoted.metBy r = false → r'.downgradeAt ≠ none) := by
  rw [Record.demoted]
  cases h with
  | met hmet hnone =>
      rw [r.metBy_lowered] at hmet
      rw [if_pos hmet, wanting.climb_lowered scheduled]
      exact ⟨rfl, fun hunmet => absurd (hunmet.symm.trans hmet) (by simp)⟩
  | canceled hmet hsome => contradiction
  | waiting hunmet hsome => contradiction
  | failing hunmet hnone hlater =>
      obtain hsame | ⟨hsame, hunset⟩ := r.status_lowered_or
      · have hfails := hunmet
        rw [r.metBy_lowered] at hfails
        rw [if_neg (by simp [hfails]), hlater, ← hsame]
        exact ⟨rfl, fun _ => nofun⟩
      · rw [hsame, hunset] at hunmet
        contradiction

/-! ### Cascades -/

namespace Notice

/-- A tier that changes in two steps of which one is none. -/
theorem ofTier_append {a : AccountId} {s s₁ s' : Status} (h : s = s₁ ∨ s₁ = s') :
    ofTier a s s₁ ++ ofTier a s₁ s' = ofTier a s s' := by
  obtain rfl | rfl := h
  · rw [ofTier, if_pos rfl, List.nil_append]
  · rw [ofTier, ofTier, if_pos rfl, List.append_nil]

end Notice

/-- A rise is told. -/
theorem Draft.notices_rise {D : Draft} {a : AccountId} {before after : Status}
    (rises : after = before ∨ before < after) :
    (D.rise a before after).notices = D.notices ++ Notice.ofTier a before after := by
  rw [rise, Notice.ofTier]
  split
  next hlt =>
      rw [if_neg (Status.ne_of_lt hlt)]
      rfl
  next hnot => rw [if_pos (rises.resolve_right hnot).symm, List.append_nil]

namespace Cascade

variable {D D' : Draft} {now t : Timestamp} {a : AccountId} {r r' : Record} {L : Ledger}

/-- **A status check of a record that is not scheduled** tells its new tier or its schedule. -/
theorem notices_of_yields_refresh (unscheduled : r.downgradeAt = none)
    (h : (refresh now a r).Yields D r' D') :
    D'.notices = D.notices ++
      (Notice.ofTier a r.status r'.status ++ Notice.ofSchedule a r'.downgradeAt) := by
  cases yields_refresh.mp h with
  | met =>
      rw [Draft.notices_rise (climb_eq_or_lt r r.status), Notice.ofSchedule, unscheduled]
      simp
  | canceled _ hsome => rw [unscheduled] at hsome; contradiction
  | waiting _ hsome => rw [unscheduled] at hsome; contradiction
  | failing =>
      rw [Notice.ofTier, if_pos rfl]
      rfl

/-- Lowering a record tells its new tier. -/
theorem notices_of_yields_lower {b : Bool} (scheduled : r.downgradeAt = some t) (due : t ≤ now)
    (h : (lower now a r).Yields D (b, r') D') :
    D'.notices = D.notices ++ Notice.ofTier a r.status r'.status := by
  have hnot : ¬ now < t := Timestamp.not_lt.mpr due
  simp only [lower, scheduled, hnot, if_false] at h
  cases hprev : r.status.prev? with
  | none =>
      rw [hprev] at h
      obtain ⟨hr, rfl⟩ := yields_done.mp h
      obtain ⟨-, rfl⟩ := Prod.mk.inj hr
      rw [Notice.ofTier, if_pos rfl, List.append_nil]
  | some below =>
      rw [hprev] at h
      simp only [yields_bind, yields_tell, Dialogue.pure_def, yields_done] at h
      obtain ⟨_, _, rfl, hr, rfl⟩ := h
      obtain ⟨-, rfl⟩ := Prod.mk.inj hr
      rw [Notice.ofTier, if_neg (Status.ne_of_lt (Status.lt_of_prev? hprev)).symm]
      rfl

/-- **What a downgrade does** to a draft with nothing told: the record of the account is left as described,
and that is told. -/
theorem eq_demoted_of_yields_downgrade {u : Unit} (full : Roster.Full L.records)
    (found : L.records.get? a = some r) (scheduled : r.downgradeAt = some t) (due : t ≤ now)
    (wanting : r.Wanting) (h : (downgrade now a).Yields L.draft u D) :
    let left := r.demoted now (L.params.getD .default).gracePeriod
    D.records = L.records.insert a left ∧
      D.notices = r.demotionNotices now (L.params.getD .default).gracePeriod a ∧
      (r.status.demoted.metBy r = false → left.downgradeAt ≠ none) := by
  intro left
  have hscheduled : r.downgradeAt ≠ none := by simp [scheduled]
  obtain ⟨lowered, D₁, hupdate, hrest⟩ := yields_bind.mp h
  have hannounce : D.toLedger = D₁.toLedger ∧ D.notices = D₁.notices := by
    split at hrest
    · obtain rfl := yields_announce.mp hrest
      exact ⟨rfl, rfl⟩
    · obtain ⟨-, rfl⟩ := yields_done.mp hrest
      exact ⟨rfl, rfl⟩
  obtain ⟨hnone, -, -⟩ | ⟨r₀, b, r₁, D₂, r₂, D₃, hr, hlower, hcheck, -, rfl⟩ :=
    steps_of_yields_update hupdate
  · exact absurd (hnone.symm.trans found) (by simp)
  · obtain rfl : r₀ = r := Option.some.inj (hr.symm.trans found)
    rw [Record.normalize_of_length (full a r₀ found).ge] at hlower
    obtain ⟨hD₂, hr₁⟩ := yields_lower scheduled due hlower
    have hlowered := notices_of_yields_lower scheduled due hlower
    have hchecked := notices_of_yields_refresh (hr₁ ▸ rfl) hcheck
    have hsettles := settles_of_yields_refresh hcheck
    rw [hD₂, hr₁] at hsettles
    obtain ⟨hr₂, hlater⟩ := hsettles.eq_demoted wanting hscheduled
    rw [hannounce.1, hannounce.2]
    refine ⟨?_, ?_, fun hunmet => ?_⟩
    · rw [Draft.toLedger_withLedger, Ledger.put, hsettles.records_eq, hr₂]
      rfl
    · have htier : r₀.status = r₁.status ∨ r₁.status = r₂.status := by
        rw [hr₁, hr₂]
        exact r₀.status_lowered_or.elim .inr fun h => .inl h.1.symm
      have hnotices : D₃.notices = (L.draft.notices ++ Notice.ofTier a r₀.status r₁.status) ++
          (Notice.ofTier a r₁.status r₂.status ++ Notice.ofSchedule a r₂.downgradeAt) := by
        rw [hchecked, hlowered]
      have hnothing : L.draft.notices = [] := rfl
      rw [Draft.withLedger, hnotices, hnothing, List.nil_append, ← List.append_assoc,
        Notice.ofTier_append htier, hr₂]
      rfl
    · rw [hr₂] at hlater
      exact hlater hunmet

end Cascade

/-! ### Entries of the queue -/

/-- **What handling entries of the queue does** to a ledger, and what is told of it: the records of their
accounts are left as described, one after another, and no others change. -/
structure Ledger.Demotes (now : Timestamp) (grace : UInt64) (l : List (Timestamp × AccountId))
    (L L' : Ledger) (ns : List Notice) : Prop where
  /-- The queue is in step with the records. -/
  inStep : L'.InStep
  /-- The records of the accounts are left as described. -/
  handled : ∀ a ∈ l.map Prod.snd,
    L'.records.get? a = (L.records.get? a).map (Record.demoted now grace)
  /-- No others change. -/
  spared : ∀ a, a ∉ l.map Prod.snd → L'.records.get? a = L.records.get? a
  /-- An account that fails the requirement of the tier it is left with is scheduled again. -/
  again : ∀ a ∈ l.map Prod.snd, ∀ r, L.records.get? a = some r →
    r.status.demoted.metBy r = false → (r.demoted now grace).downgradeAt ≠ none
  /-- That is told in the order of the entries. -/
  notices : ns = l.flatMap fun entry =>
    ((L.records.get? entry.2).map (Record.demotionNotices now grace entry.2)).getD []

namespace Ledger.Demotes

variable {now t : Timestamp} {grace : UInt64} {L L₁ L' : Ledger} {a : AccountId} {r : Record}

/-- No entries are handled. -/
theorem nil (inStep : L.InStep) : Demotes now grace [] L L [] :=
  ⟨inStep, by simp, fun _ _ => rfl, by simp, rfl⟩

/-- **An entry is handled before others** of other accounts. -/
theorem cons {rest : List (Timestamp × AccountId)} {ms : List Notice}
    (later : Demotes now grace rest L₁ L' ms) (others : ∀ p ∈ rest, p.2 ≠ a)
    (found : L.records.get? a = some r) (records : L₁.records = L.records.insert a (r.demoted now grace))
    (again : r.status.demoted.metBy r = false → (r.demoted now grace).downgradeAt ≠ none) :
    Demotes now grace ((t, a) :: rest) L L' (r.demotionNotices now grace a ++ ms) := by
  have hafter : L₁.records.get? a = some (r.demoted now grace) := by
    rw [records, SortedMap.get?_insert_self]
  have hsame : ∀ b, b ≠ a → L₁.records.get? b = L.records.get? b := fun b hb => by
    rw [records, SortedMap.get?_insert_of_ne _ _ hb]
  have hothers : ∀ b ∈ rest.map Prod.snd, b ≠ a := by
    intro b hb
    obtain ⟨p, hp, rfl⟩ := List.mem_map.mp hb
    exact others p hp
  have hrest : a ∉ rest.map Prod.snd := fun ha => hothers a ha rfl
  refine ⟨later.inStep, fun b hb => ?_, fun b hb => ?_, fun b hb s hs hunmet => ?_, ?_⟩
  · obtain rfl | hb := List.mem_cons.mp hb
    · rw [later.spared _ hrest, hafter, found, Option.map_some]
    · rw [later.handled b hb, hsame b (hothers b hb)]
  · obtain ⟨hne, hb⟩ := List.ne_and_not_mem_of_not_mem_cons hb
    rw [later.spared b hb, hsame b hne]
  · obtain rfl | hb := List.mem_cons.mp hb
    · obtain rfl := Option.some.inj (found.symm.trans hs)
      exact again hunmet
    · exact later.again b hb s ((hsame b (hothers b hb)).trans hs) hunmet
  · rw [List.flatMap_cons, found, Option.map_some, Option.getD_some, later.notices]
    congr 1
    exact List.flatMap_congr fun p hp => by rw [hsame p.2 (others p hp)]

end Ledger.Demotes

namespace Forest

variable {host : Host} {L : Ledger} {now : Timestamp}

/-- **The drain of a queue** recounts what handling the due entries does. -/
theorem recounts_demotes (quiet : host.Quiet) (full : Roster.Full L.records) (inStep : L.InStep)
    (wanting : L.records.Wanting) :
    host.Recounts (drain host now) (drain host.deaf now) L fun n L' ns =>
      ∃ due : List (Timestamp × AccountId), due.Pairwise QueueBefore ∧
        (∀ t a, (t, a) ∈ due ↔ (t, a) ∈ L.queue ∧ t ≤ now) ∧ n = due.length ∧
        Ledger.Demotes now (L.params.getD .default).gracePeriod due L L' ns := by
  refine recounts_drain
    (I := fun M => (Roster.Full M.records ∧ M.InStep ∧ M.records.Wanting) ∧ M.params = L.params)
    (fun M hM => .nil hM.1.2.1) ?_ inStep ⟨⟨full, inStep, wanting⟩, rfl⟩
  rintro M t a ⟨⟨hfull, hstep, hwanting⟩, hparams⟩ queued due
  refine recounts_handle quiet hstep queued due fun D _ h htakes => ⟨⟨⟨htakes.full hfull,
    htakes.inStep hfull hstep, htakes.wanting trivial hfull hwanting⟩,
    htakes.get?_of_lower.1.trans hparams⟩, ?_⟩
  obtain ⟨r, found, scheduled⟩ := (hstep t a).mp queued
  obtain ⟨hrecords, hnotices, hagain⟩ := Cascade.eq_demoted_of_yields_downgrade (L := M.dequeue t a)
    hfull found scheduled due (hwanting a r found) h
  rw [show (M.dequeue t a).params = L.params from hparams] at hrecords hnotices hagain
  rw [hnotices]
  exact fun rest L' ms others later => later.cons others found hrecords hagain

end Forest

/-! ### Histories -/

/-- **A queue that is listed** in order of time and account. -/
def Store.Queues (store : Store) (queue : List (Timestamp × AccountId)) : Prop :=
  (World.ofStore store).run Program.scheduled = (.ok queue, World.ofStore store) ∧
    queue.Pairwise QueueBefore

/-- **What draining a queue does** to the records and to the queue. -/
structure Roster.Drained (now : Timestamp) (grace : UInt64) (m m' : Roster)
    (queue queue' : List (Timestamp × AccountId)) : Prop where
  /-- The queue has an entry for each account that is scheduled, and no others. -/
  queued : ∀ t a, (t, a) ∈ queue ↔ ∃ r, m.get? a = some r ∧ r.downgradeAt = some t
  /-- An account that is due has the tier that is left of its own. -/
  due : ∀ t a, (t, a) ∈ queue → t ≤ now → m'.get? a = (m.get? a).map (Record.demoted now grace)
  /-- No other record changes. -/
  spared : ∀ a, (∀ t, (t, a) ∈ queue → now < t) → m'.get? a = m.get? a
  /-- The queue has the entries that were not due, and new ones for the accounts that were and fail the
  requirement of the tier they are left with. -/
  remaining : ∀ t a, (t, a) ∈ queue' ↔ (t, a) ∈ queue ∧ now < t ∨
    now.add? grace = some t ∧ ∃ s r, (s, a) ∈ queue ∧ s ≤ now ∧ m.get? a = some r ∧
      r.status.demoted.metBy r = false
  /-- There is a time for the new entries. -/
  again : ∀ t a r, (t, a) ∈ queue → t ≤ now → m.get? a = some r →
    r.status.demoted.metBy r = false → now.add? grace ≠ none

/-- **What draining the queue does to a store**, if it succeeds: it handles the entries that are due, each
once and in the order of the queue, and gives their number. -/
def Store.Drains (host : Host) (store : Store) : Prop :=
  ∀ now n w, (World.ofStore store).transact (Forest.drain host now) = (.ok n, w) →
    ∃ (p : Params) (m m' : Roster) (queue queue' : List (Timestamp × AccountId)),
      (World.ofStore store).run Program.params = (.ok p, World.ofStore store) ∧
      store.Holds m ∧ w.store.Holds m' ∧ store.Queues queue ∧ w.store.Queues queue' ∧
      Roster.Drained now p.gracePeriod m m' queue queue' ∧
      n = (queue.filter (·.1 ≤ now)).length ∧
      (host.Discreet → w.notices = (queue.filter (·.1 ≤ now)).flatMap fun entry =>
        ((m.get? entry.2).map (Record.demotionNotices now p.gracePeriod entry.2)).getD [])

/-- The order of the queue is that of no entry and itself. -/
instance : Std.Irrefl QueueBefore :=
  ⟨fun _ h => SortedMap.not_lt_self _ (queueBefore_iff.mp h)⟩

/-- Of two entries of the queue only one is before the other. -/
instance : Std.Antisymm QueueBefore :=
  ⟨fun _ _ h h' => absurd (Std.TransCmp.lt_trans (queueBefore_iff.mp h) (queueBefore_iff.mp h'))
    (SortedMap.not_lt_self _)⟩

/-- **The due entries of a queue** are those of the queue that are due, in its order. -/
theorem eq_filter_of_due {now : Timestamp} {queue due : List (Timestamp × AccountId)}
    (sorted : queue.Pairwise QueueBefore) (sorted' : due.Pairwise QueueBefore)
    (h : ∀ t a, (t, a) ∈ due ↔ (t, a) ∈ queue ∧ t ≤ now) : due = queue.filter (·.1 ≤ now) := by
  have hmem : ∀ p, p ∈ due ↔ p ∈ queue.filter (·.1 ≤ now) := fun p => by
    rw [h p.1 p.2, List.mem_filter, decide_eq_true_iff]
  exact List.Subset.antisymm_of_pairwise sorted' (sorted.filter _) (fun p hp => (hmem p).mp hp)
    fun p hp => (hmem p).mpr hp

/-- A demoted record is scheduled just if it fails the requirement of the tier it is left with, and there is
a time for that. -/
theorem Record.downgradeAt_demoted_eq_some_iff {now t : Timestamp} {grace : UInt64} {r : Record} :
    (r.demoted now grace).downgradeAt = some t ↔
      r.status.demoted.metBy r = false ∧ now.add? grace = some t := by
  cases hmet : r.status.demoted.metBy r <;> simp [Record.demoted, hmet]

namespace Ledger.Demotes

variable {now s t : Timestamp} {grace : UInt64} {L L' : Ledger} {ns : List Notice} {a : AccountId}
  {queue queue' : List (Timestamp × AccountId)}

/-- The accounts that are due. -/
theorem mem_map_due_iff :
    a ∈ (queue.filter (·.1 ≤ now)).map Prod.snd ↔ ∃ t, (t, a) ∈ queue ∧ t ≤ now := by
  simp [List.mem_map, List.mem_filter]

/-- An account without an entry among those that are handled keeps its entry. -/
theorem mem_queue_of_spared {l : List (Timestamp × AccountId)} (h : Demotes now grace l L L' ns)
    (inStep : L.InStep) (ha : a ∉ l.map Prod.snd) : (t, a) ∈ L'.queue ↔ (t, a) ∈ L.queue := by
  rw [h.inStep t a, h.spared a ha, ← inStep t a]

/-- **An account that is handled** has an entry afterwards just if it fails the requirement of the tier it is
left with. -/
theorem mem_queue_of_handled {l : List (Timestamp × AccountId)} (h : Demotes now grace l L L' ns)
    (ha : a ∈ l.map Prod.snd) :
    (t, a) ∈ L'.queue ↔ now.add? grace = some t ∧ ∃ r, L.records.get? a = some r ∧
      r.status.demoted.metBy r = false := by
  rw [h.inStep t a, h.handled a ha]
  constructor
  · rintro ⟨_, hr, hscheduled⟩
    obtain ⟨r, found, rfl⟩ := Option.map_eq_some_iff.mp hr
    obtain ⟨hunmet, htime⟩ := Record.downgradeAt_demoted_eq_some_iff.mp hscheduled
    exact ⟨htime, r, found, hunmet⟩
  · rintro ⟨htime, r, found, hunmet⟩
    exact ⟨_, by rw [found, Option.map_some],
      Record.downgradeAt_demoted_eq_some_iff.mpr ⟨hunmet, htime⟩⟩

/-- **The queue afterwards** has the entries that were not due, and new ones. An account has one entry only,
so none of a due one is left. -/
theorem mem_queue_iff (h : Demotes now grace (queue.filter (·.1 ≤ now)) L L' ns) (inStep : L.InStep)
    (listed : ∀ t a, (t, a) ∈ queue ↔ (t, a) ∈ L.queue) :
    (t, a) ∈ L'.queue ↔ (t, a) ∈ queue ∧ now < t ∨
      now.add? grace = some t ∧ ∃ s r, (s, a) ∈ queue ∧ s ≤ now ∧ L.records.get? a = some r ∧
        r.status.demoted.metBy r = false := by
  by_cases ha : a ∈ (queue.filter (·.1 ≤ now)).map Prod.snd
  · obtain ⟨s, hmem, hnow⟩ := mem_map_due_iff.mp ha
    rw [h.mem_queue_of_handled ha]
    constructor
    · rintro ⟨htime, r, found, hunmet⟩
      exact .inr ⟨htime, s, r, hmem, hnow, found, hunmet⟩
    · rintro (⟨hmem', hlater⟩ | ⟨htime, _, r, -, -, found, hunmet⟩)
      · obtain rfl := inStep.eq_of_mem ((listed t a).mp hmem') ((listed s a).mp hmem)
        exact absurd hlater (Timestamp.not_lt.mpr hnow)
      · exact ⟨htime, r, found, hunmet⟩
  · have hnot : ∀ s, (s, a) ∈ queue → now < s := fun s hmem =>
      Decidable.not_not.mp fun hs => ha (mem_map_due_iff.mpr ⟨s, hmem, Timestamp.not_lt.mp hs⟩)
    rw [h.mem_queue_of_spared inStep ha, ← listed]
    constructor
    · exact fun hmem => .inl ⟨hmem, hnot t hmem⟩
    · rintro (⟨hmem, -⟩ | ⟨-, s, -, hmem, hnow, -⟩)
      · exact hmem
      · exact absurd (hnot s hmem) (Timestamp.not_lt.mpr hnow)

/-- **Handling all due entries of a queue** drains it. -/
theorem drained (h : Demotes now grace (queue.filter (·.1 ≤ now)) L L' ns) (inStep : L.InStep)
    (listed : ∀ t a, (t, a) ∈ queue ↔ (t, a) ∈ L.queue)
    (listed' : ∀ t a, (t, a) ∈ queue' ↔ (t, a) ∈ L'.queue) :
    Roster.Drained now grace L.records L'.records queue queue' where
  queued t a := (listed t a).trans (inStep t a)
  due t a hmem hnow := h.handled a (mem_map_due_iff.mpr ⟨t, hmem, hnow⟩)
  spared a hlater := h.spared a fun ha => by
    obtain ⟨t, hmem, hnow⟩ := mem_map_due_iff.mp ha
    exact Timestamp.not_lt.mpr hnow (hlater t hmem)
  remaining t a := (listed' t a).trans (h.mem_queue_iff inStep listed)
  again t a r hmem hnow found hunmet := by
    obtain ⟨u, hu⟩ := Option.ne_none_iff_exists'.mp
      (h.again a (mem_map_due_iff.mpr ⟨t, hmem, hnow⟩) r found hunmet)
    rw [(Record.downgradeAt_demoted_eq_some_iff.mp hu).2]
    exact Option.some_ne_none u

end Ledger.Demotes

namespace Forest

variable {host : Host}

/-- **Draining the queue after every history** of ordinary operations handles just the entries that are
due, and takes one tier from each of their accounts. -/
theorem drains_after (quiet : host.Quiet) {turns : List Turn}
    (ordinary : ∀ turn ∈ turns, turn.operation.Ordinary) : (after host turns).Drains host := by
  intro now n w success
  obtain ⟨L, hkeeps, hstep, hwanting⟩ := exists_wanting quiet ordinary
  obtain ⟨w₁, hrun, hfree, hview, hlog⟩ := World.log_of_transact_eq hkeeps.free success
  obtain ⟨L', ns, hkept, ⟨due, hsorted, hmem, rfl, hdemotes⟩, hdiscreet, -⟩ :=
    recounts_demotes quiet hkeeps.stored.full hstep hwanting _ _ _ hkeeps.branch hrun
  have hkeeps' : (World.ofStore w.store).Keeps L' := ⟨hfree, hview.symm ▸ hkept.stored⟩
  obtain ⟨queue, hqueue, hlisted, hrunQueue⟩ := hkeeps.run_scheduled
  obtain ⟨queue', hqueue', hlisted', hrunQueue'⟩ := hkeeps'.run_scheduled
  obtain rfl := eq_filter_of_due hqueue hsorted fun t a => by rw [hmem, hlisted]
  refine ⟨_, L.records, L'.records, queue, queue', hkeeps.run_params, holds_of_keeps hkeeps,
    holds_of_keeps hkeeps', ⟨hrunQueue, hqueue⟩, ⟨hrunQueue', hqueue'⟩,
    hdemotes.drained hstep hlisted hlisted', rfl, fun discreet => ?_⟩
  rw [World.notices, hlog, ← hdemotes.notices]
  exact hdiscreet discreet

/-- The referral of the small forest has lost the stake for its tier; its grace period over, it is the one
account that the drain of the queue handles. -/
theorem drains_after_small :
    let turns : List Turn := ⟨⟨30⟩, .changeStake SmallHistory.leaf (-1)⟩ :: SmallHistory.turns.tail
    (Host.standalone.Quiet ∧ ∀ turn ∈ turns, turn.operation.Ordinary) ∧
      (after Host.standalone turns).Drains Host.standalone ∧
      ((World.ofStore (after Host.standalone turns)).transact
        (drain Host.standalone ⟨1000000⟩)).1 = .ok 1 := by
  intro turns
  have hordinary : ∀ turn ∈ turns, turn.operation.Ordinary :=
    List.forall_mem_cons.mpr
      ⟨trivial, fun turn hturn => SmallHistory.ordinary turn (List.mem_of_mem_tail hturn)⟩
  exact ⟨⟨Host.quiet_standalone, hordinary⟩, drains_after Host.quiet_standalone hordinary,
    by decide +kernel⟩

end Forest

end ReferralForest

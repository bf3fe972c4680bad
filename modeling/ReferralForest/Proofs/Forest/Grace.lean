import ReferralForest.Proofs.Forest.Settled
import ReferralForest.Proofs.Status.Measures

/-!
# The Grace Period

An account keeps a tier it no longer deserves for a grace period. Only the beginning of a block takes a
tier away, one at a time, and only from an account that was put on notice at least a grace period ago
and has failed the requirement of that tier ever since.

A schedule in a record is therefore a memory of the history: it says when the account was put on notice
and under which parameters. What a move does to a schedule is either nothing, the tier staying too, or
to take it away, or to make it new.

## Main definitions

* `Roster.NotLowered`, `Roster.Noticed` — what a move does to tiers and to schedules.
* `Store.Failing` — an account fails the requirement of the tier it has.
* `Forest.Waited` — a turn of a history put an account on notice, and it has failed ever since.

## Main statements

* `Record.Climbed.status_lowered` — a due account loses one tier and does not climb back.
* `Forest.waited_after` — every schedule is the memory of a notice.
* `Forest.graced_after` — only a block takes a tier away, one, and after a grace period.
-/

namespace ReferralForest

/-! ### Settling -/

namespace Status

/-- The tier next to the one below is the tier itself. -/
theorem next?_of_prev? {s below : Status} (h : s.prev? = some below) : below.next? = some s := by
  cases s with
  | unspecified | new => contradiction
  | _ =>
      obtain rfl := Option.some.inj h
      rfl

end Status

namespace Ledger.Settles

variable {L L' : Ledger} {a : AccountId} {checkAt : Option Timestamp} {r r' : Record}

/-- Settling takes no tier away. -/
theorem status_le (h : L.Settles a checkAt r r' L') : r.status ≤ r'.status := by
  have hclimb : r.status ≤ Cascade.climb r r.status := by
    rw [Status.le_def]
    obtain hsame | hlt := Cascade.climb_eq_or_lt r r.status
    · rw [hsame]
    · exact Nat.le_of_lt (Status.lt_def.mp hlt)
  cases h with
  | met => exact hclimb
  | canceled => exact hclimb
  | _ => exact Nat.le_refl _

/-- **A schedule after settling** is the one before, at the same tier, or it is made by settling. -/
theorem scheduled (h : L.Settles a checkAt r r' L') {t : Timestamp} (ht : r'.downgradeAt = some t) :
    r.downgradeAt = some t ∧ r'.status = r.status ∨
      ∃ now, checkAt = some now ∧ now.add? (L.params.getD .default).gracePeriod = some t := by
  cases h with
  | unchecked => exact .inl ⟨ht, rfl⟩
  | met hmet unscheduled => exact absurd (unscheduled.symm.trans ht) (by simp)
  | canceled => contradiction
  | waiting => exact .inl ⟨ht, rfl⟩
  | failing unmet unscheduled later =>
      obtain rfl := Option.some.inj ht
      exact .inr ⟨_, rfl, later⟩

end Ledger.Settles

/-- **A due account loses one tier** and does not climb back: it failed the requirement of the tier it
loses. Where there is no lower tier it stays. -/
theorem Record.Climbed.status_lowered {L L' : Ledger} {a : AccountId} {now : Timestamp} {r r' : Record}
    (h : r.Climbed) (scheduled : r.downgradeAt ≠ none)
    (settles : L.Settles a (some now) r.lowered r' L') :
    r'.status = r.status.prev?.getD r.status := by
  have hunmet : r.status.metBy r.lowered = false := by
    have hmeasures : r.lowered.measures = r.measures := rfl
    rw [Status.metBy_congr hmeasures]
    exact h.unmet scheduled
  have hstays : r.lowered.status.metBy r.lowered = true →
      Cascade.climb r.lowered r.lowered.status = r.lowered.status := by
    intro hmet
    refine Cascade.climb_eq_self fun t ht => ?_
    cases hprev : r.status.prev? with
    | none =>
        rw [Record.lowered, hprev, Option.getD_none] at hmet
        exact absurd (hmet.symm.trans hunmet) (by simp)
    | some below =>
        have hbelow : r.lowered.status = below := by rw [Record.lowered, hprev, Option.getD_some]
        rw [hbelow, Status.next?_of_prev? hprev] at ht
        obtain rfl := Option.some.inj ht
        exact hunmet
  cases settles with
  | met hmet => exact hstays hmet
  | canceled hmet => exact hstays hmet
  | waiting => rfl
  | failing => rfl

/-! ### Moves -/

namespace Roster

variable {now : Timestamp} {grace : UInt64} {m m₁ m' : Roster} {a : AccountId} {r : Record}

/-- No account loses its record or its tier. -/
def NotLowered (m m' : Roster) : Prop :=
  ∀ a r, m.get? a = some r → ∃ r', m'.get? a = some r' ∧ r.status ≤ r'.status

/-- **What becomes of schedules**: one that is there afterwards was there before, at the same tier, or it
is new and lies a grace period ahead. -/
def Noticed (now : Timestamp) (grace : UInt64) (m m' : Roster) : Prop :=
  ∀ a r' t, m'.get? a = some r' → r'.downgradeAt = some t →
    (∃ r, m.get? a = some r ∧ r.downgradeAt = some t ∧ r'.status = r.status) ∨
      now.add? grace = some t

/-- Where nothing happens no tier is lost. -/
theorem NotLowered.refl : NotLowered m m := fun _ r hr => ⟨r, hr, Nat.le_refl _⟩

/-- What is lowered in neither part is not lowered. -/
theorem NotLowered.trans (h : NotLowered m m₁) (h' : NotLowered m₁ m') : NotLowered m m' := by
  intro a r hr
  obtain ⟨r₁, hr₁, hle⟩ := h a r hr
  obtain ⟨r', hr', hle'⟩ := h' a r₁ hr₁
  exact ⟨r', hr', Nat.le_trans hle hle'⟩

/-- Writing a record at a tier not below that of the record it replaces. -/
theorem NotLowered.insert (same : ∀ s, m.get? a = some s → s.status ≤ r.status) :
    NotLowered m (m.insert a r) := by
  classical
  intro b s hs
  rw [SortedMap.get?_insert]
  split
  next hb =>
      rw [hb] at hs
      exact ⟨r, rfl, same s hs⟩
  next => exact ⟨s, hs, Nat.le_refl _⟩

/-- Where nothing happens every schedule was there before. -/
theorem Noticed.refl : Noticed now grace m m := fun _ r' _ hr' ht => .inl ⟨r', hr', ht, rfl⟩

/-- A schedule is there from the beginning or is new in one of two parts. -/
theorem Noticed.trans (h : Noticed now grace m m₁) (h' : Noticed now grace m₁ m') :
    Noticed now grace m m' := by
  intro a r' t hr' ht
  obtain ⟨r₁, hr₁, ht₁, hsame'⟩ | hnew := h' a r' t hr' ht
  · obtain ⟨r, hr, ht₀, hsame⟩ | hnew := h a r₁ t hr₁ ht₁
    · exact .inl ⟨r, hr, ht₀, hsame'.trans hsame⟩
    · exact .inr hnew
  · exact .inr hnew

/-- Writing a record whose schedule is the one before, at the same tier, or new. -/
theorem Noticed.insert (how : ∀ t, r.downgradeAt = some t →
    (∃ s, m.get? a = some s ∧ s.downgradeAt = some t ∧ r.status = s.status) ∨
      now.add? grace = some t) : Noticed now grace m (m.insert a r) := by
  classical
  intro b r' t hr' ht
  rw [SortedMap.get?_insert] at hr'
  split at hr'
  next hb =>
      obtain rfl := Option.some.inj hr'
      exact hb ▸ how t ht
  next => exact .inl ⟨r', hr', ht, rfl⟩

end Roster

namespace Ledger.Walk

open Roster

variable {P : Edit} {now : Timestamp} {L L' : Ledger}

/-- A walk takes no tier away. -/
theorem notLowered (h : Walk P L L') : NotLowered L.records L'.records := by
  refine h.invariant (I := fun M => NotLowered L.records M.records) (fun M M' hs hM => ?_) .refl
  obtain ⟨found, edits, -, settles⟩ := hs
  rw [Ledger.put, settles.records_eq]
  refine hM.trans (.insert fun s hs => ?_)
  obtain rfl := Option.some.inj (found.symm.trans hs)
  exact edits.status ▸ settles.status_le

/-- **A walk with status checks** schedules only for a grace period ahead. -/
theorem noticed (h : Walk (Edit.settled (some now)) L L') :
    Noticed now (L.params.getD .default).gracePeriod L.records L'.records := by
  have hall := h.invariant (I := fun M => M.params = L.params ∧
    Noticed now (L.params.getD .default).gracePeriod L.records M.records) (fun M M' hs hM => ?_)
    ⟨rfl, .refl⟩
  · exact hall.2
  · obtain ⟨hparams, hM⟩ := hM
    obtain ⟨found, edits, how, settles⟩ := hs
    refine ⟨settles.params_eq.trans hparams, ?_⟩
    rw [Ledger.put, settles.records_eq]
    refine hM.trans (.insert fun t ht => ?_)
    obtain ⟨hscheduled, hsame⟩ | ⟨time, htime, hnew⟩ := settles.scheduled ht
    · exact .inl ⟨_, found, edits.downgradeAt ▸ hscheduled, hsame.trans edits.status⟩
    · rw [hparams] at hnew
      obtain htimed | ⟨hnone, -⟩ := how
      · obtain rfl := Option.some.inj (htime.symm.trans htimed)
        exact .inr hnew
      · exact absurd (hnone.symm.trans htime) (by simp)

end Ledger.Walk

/-- Whether a move is made at a time, if at any. -/
def Move.At (now : Timestamp) : Move → Prop
  | .register time _ _ | .changeStake time _ _ | .lower time _ _ => time = now
  | .setActive checkAt _ _ => checkAt = some now
  | _ => True

/-- Whether a move may take a tier away. -/
def Move.Lowers : Move → Prop
  | .lower _ _ _ => True
  | _ => False

namespace Move.Takes

open Roster

variable {mv : Move} {L L' : Ledger} {now t : Timestamp} {a b : AccountId}

/-- **A move that handles no entry of the queue** takes no tier away. -/
theorem notLowered (h : mv.Takes L L') (raises : ¬ mv.Lowers) (full : Full L.records) :
    NotLowered L.records L'.records := by
  have enters : ∀ {c : AccountId} {r : Record}, L.records.get? c = none →
      NotLowered L.records (L.put c r).records := by
    intro c r fresh
    refine .insert fun s hs => ?_
    rw [fresh] at hs
    contradiction
  cases h with
  | setParams => exact .refl
  | addRoot fresh => exact enters fresh
  | addReferral fresh => exact enters fresh
  | register fresh placed parent above =>
      exact ((enters fresh).trans parent.notLowered).trans above.notLowered
  | changeStake course => exact (Cascade.walk_changeStake full course).notLowered
  | setActive course => exact (Cascade.walk_setActive full course).notLowered
  | reschedule found =>
      rw [Ledger.put, Ledger.enqueue, Ledger.records_unschedule]
      refine .insert fun s hs => ?_
      obtain rfl := Option.some.inj (found.symm.trans hs)
      exact Nat.le_refl _
  | lower => exact absurd trivial raises

/-- **A move that settles what it changes** schedules only for a grace period ahead. -/
theorem noticed (h : mv.Takes L L') (settles : mv.Settles) (time : mv.At now)
    (full : Full L.records) :
    Noticed now (L.params.getD .default).gracePeriod L.records L'.records := by
  have enters : ∀ {c : AccountId} {p : Option AccountId} {s : Status},
      Noticed now (L.params.getD .default).gracePeriod L.records (L.put c (.fresh p s)).records := by
    intro c p s
    refine .insert fun t ht => ?_
    contradiction
  cases h with
  | setParams => exact .refl
  | addRoot => exact enters
  | addReferral => exact settles.elim
  | register fresh placed parent above =>
      next L₁ time' p c =>
        obtain rfl : time' = now := time
        have hparams : (L₁.relate p c).params = L.params := parent.params_eq
        have hparent := (parent.mono fun _ _ _ how => .inl how.1 :
          Ledger.Walk (Edit.settled (some time')) _ _).noticed
        have habove := (above.mono fun _ _ _ how => .inl how.1 :
          Ledger.Walk (Edit.settled (some time')) _ _).noticed
        rw [hparams] at habove
        exact (enters.trans hparent).trans habove
  | changeStake course =>
      obtain rfl := time
      exact (Cascade.walk_changeStake full course).noticed
  | setActive course =>
      obtain rfl := time
      have hwalk := Cascade.walk_setActive (D := L.draft) full course
      exact (hwalk.mono fun _ _ _ how => Edit.settled_of_activity how).noticed
  | reschedule => exact settles.elim
  | lower found scheduled due checked =>
      obtain rfl := time
      rw [Ledger.put, checked.records_eq]
      refine .insert fun u hu => .inr ?_
      obtain ⟨hnone, -⟩ | ⟨_, hnow, hnew⟩ := checked.scheduled hu
      · contradiction
      · obtain rfl := Option.some.inj hnow
        exact hnew

/-- Handling an entry of the queue leaves the records of other accounts, and the parameters. -/
theorem get?_of_lower (h : (Move.lower now t a).Takes L L') :
    L'.params = L.params ∧ ∀ b, b ≠ a → L'.records.get? b = L.records.get? b := by
  cases h with
  | lower found scheduled due settles =>
      refine ⟨settles.params_eq, fun b hb => ?_⟩
      rw [Ledger.put, SortedMap.get?_insert_of_ne _ _ hb, settles.records_eq]
      rfl

/-- **Handling an entry of the queue** takes one tier from an account whose schedule is due. -/
theorem status_of_lower (h : (Move.lower now t a).Takes L L') (climbed : Climbed L.records) :
    ∃ r r', L.records.get? a = some r ∧ r.downgradeAt = some t ∧ t ≤ now ∧
      L'.records.get? a = some r' ∧ r'.status = r.status.prev?.getD r.status := by
  cases h with
  | lower found scheduled due settles =>
      next r r' =>
        refine ⟨r, r', found, scheduled, due, SortedMap.get?_insert_self _ _ _, ?_⟩
        exact (climbed a r found).status_lowered (by simp [scheduled]) settles

end Move.Takes

/-! ### Paths -/

namespace Ledger.Path

open Roster

variable {now : Timestamp} {ms : List Move} {L L' : Ledger}

/-- A path that handles no entry of the queue takes no tier away. -/
theorem notLowered (h : Path ms L L') (raises : ∀ mv ∈ ms, ¬ mv.Lowers) (full : Full L.records) :
    NotLowered L.records L'.records := by
  have hall := h.invariant
    (I := fun M => Full M.records ∧ NotLowered L.records M.records) ?_ ⟨full, .refl⟩
  · exact hall.2
  · intro mv hmv M M' htakes hM
    exact ⟨htakes.full hM.1, hM.2.trans (htakes.notLowered (raises mv hmv) hM.1)⟩

/-- **Handling entries of the queue, no two of one account**, leaves a record as it is or takes one tier
from it because its schedule is due. An account is handled once at most, so its record stays as it is before
and after that. -/
theorem status_of_lower {l : List (Timestamp × AccountId)} (distinct : l.Pairwise (·.2 ≠ ·.2))
    (h : Path (l.map fun p => .lower now p.1 p.2) L L') (full : Full L.records)
    (climbed : Climbed L.records) {a : AccountId} {r : Record} (found : L.records.get? a = some r) :
    L'.records.get? a = some r ∨ ∃ t r', r.downgradeAt = some t ∧ t ≤ now ∧
      L'.records.get? a = some r' ∧ r'.status = r.status.prev?.getD r.status := by
  have untouched : ∀ {l : List (Timestamp × AccountId)} {L L' : Ledger},
      Path (l.map fun p => .lower now p.1 p.2) L L' → (∀ p ∈ l, p.2 ≠ a) →
        L'.records.get? a = L.records.get? a := by
    intro l
    induction l with
    | nil =>
        intro L L' hpath _
        cases hpath
        rfl
    | cons p rest ih =>
        intro L L' hpath hne
        cases hpath with
        | cons first hrest =>
            have hfirst := first.get?_of_lower.2 a (hne p List.mem_cons_self).symm
            exact (ih hrest fun q hq => hne q (List.mem_cons_of_mem _ hq)).trans hfirst
  induction l generalizing L with
  | nil =>
      cases h
      exact .inl found
  | cons p rest ih =>
      obtain ⟨hne, hdistinct⟩ := List.pairwise_cons.mp distinct
      cases h with
      | cons first hrest =>
          by_cases ha : p.2 = a
          · subst ha
            obtain ⟨r₀, r', hr₀, hscheduled, hdue, hr', hstatus⟩ := first.status_of_lower climbed
            obtain rfl := Option.some.inj (found.symm.trans hr₀)
            have hlater := untouched hrest fun q hq => (hne q hq).symm
            exact .inr ⟨p.1, r', hscheduled, hdue, hlater.trans hr', hstatus⟩
          · have hsame := first.get?_of_lower.2 a (Ne.symm ha)
            exact ih hdistinct hrest (first.full full) (first.climbed trivial full climbed)
              (hsame.trans found)

end Ledger.Path

/-- **What an operation does to schedules**, if it settles what it changes. -/
theorem Operation.Makes.noticed {now : Timestamp} {op : Operation} {ms : List Move} {L L' : Ledger}
    (h : op.Makes now ms) (settles : op.Settles) (hpath : Ledger.Path ms L L')
    (full : Roster.Full L.records) :
    Roster.Noticed now (L.params.getD .default).gracePeriod L.records L'.records := by
  have single : ∀ {mv : Move}, ms = [mv] → mv.Settles → mv.At now →
      Roster.Noticed now (L.params.getD .default).gracePeriod L.records L'.records := by
    rintro mv rfl hsettles hnow
    cases hpath with
    | cons first rest =>
        cases rest
        exact first.noticed hsettles hnow full
  cases op with
  | addRoot => exact single h settles trivial
  | register =>
      obtain ⟨p, c, h⟩ := h
      exact single h trivial rfl
  | importGenesis => exact settles.elim
  | importParts => exact settles.elim
  | setActive a active checked =>
      obtain rfl : checked = true := settles
      exact single h (by simp [Move.Settles]) rfl
  | beginBlock =>
      obtain ⟨due, -, rfl⟩ := h
      have hall := hpath.invariant (I := fun M => Roster.Full M.records ∧ M.params = L.params ∧
        Roster.Noticed now (L.params.getD .default).gracePeriod L.records M.records) ?_
        ⟨full, rfl, .refl⟩
      · exact hall.2.2
      · intro mv hmv M M' htakes hM
        obtain ⟨hfull, hparams, hnoticed⟩ := hM
        obtain ⟨p, -, rfl⟩ := List.mem_map.mp hmv
        refine ⟨htakes.full hfull, htakes.get?_of_lower.1.trans hparams, hnoticed.trans ?_⟩
        rw [← hparams]
        exact htakes.noticed trivial rfl hfull
  | append => exact single h trivial rfl
  | changeStake => exact single h trivial rfl
  | setParams => exact single h trivial trivial
  | updateParams => exact single h trivial trivial

/-- Only the beginning of a block handles entries of the queue. -/
theorem Operation.Allows.eq_beginBlock {now : Timestamp} {op : Operation} {mv : Move}
    (h : op.Allows now mv) (lowers : mv.Lowers) : op = .beginBlock := by
  cases op with
  | beginBlock => rfl
  | register =>
      obtain ⟨p, c, rfl⟩ := h
      exact lowers.elim
  | importGenesis | importParts =>
      cases mv with
      | lower => exact h.elim
      | _ => exact lowers.elim
  | _ =>
      obtain rfl := h
      exact lowers.elim

/-! ### Histories -/

/-- An account has a tier in a store. -/
def Store.HasTier (store : Store) (a : AccountId) (s : Status) : Prop :=
  ((World.ofStore store).run (Program.record a)).1.toOption.map Record.status = some s

/-- **An account fails the requirement of the tier it has** in a store. -/
def Store.Failing (store : Store) (a : AccountId) (s : Status) : Prop :=
  ((World.ofStore store).run (Program.record a)).1.toOption.map
    (fun r => (r.status, (r.status.assess r).overall)) = some (s, false)

/-- Looking an account up gives what the ledger kept has for it. -/
theorem World.Keeps.toOption_run_record {w : World} {L : Ledger} (h : w.Keeps L) (a : AccountId) :
    (w.run (Program.record a)).1.toOption = L.records.get? a := by
  rw [h.run_record a]
  cases L.records.get? a <;> rfl

namespace Forest

variable {host : Host} {turns : List Turn} {a : AccountId} {s : Status} {t : Timestamp}

/-- **An account has waited** since a time so that its grace period ends at another: a successful turn
of the history lies a grace period, as the parameters had it at that turn, before that, and in each
store since then the account has had the tier and failed its requirement. -/
def Waited (host : Host) (turns : List Turn) (a : AccountId) (s : Status) (ends : Timestamp) : Prop :=
  ∃ later start past p, turns = later ++ start :: past ∧
    (start.outcome host (after host past)).1 = .ok () ∧
    (World.ofStore (after host past)).run Program.params = (.ok p, World.ofStore (after host past)) ∧
    ends.seconds.toNat = start.time.seconds.toNat + p.gracePeriod.toNat ∧
    ∀ recent, recent <:+ later → (after host (recent ++ start :: past)).Failing a s

/-- An account that goes on failing goes on waiting. -/
theorem Waited.cons (h : Waited host turns a s t) {turn : Turn}
    (failing : (after host (turn :: turns)).Failing a s) : Waited host (turn :: turns) a s t := by
  obtain ⟨later, start, past, p, rfl, hok, hparams, hends, hfailing⟩ := h
  refine ⟨turn :: later, start, past, p, rfl, hok, hparams, hends, fun recent hrecent => ?_⟩
  obtain rfl | hrecent := List.suffix_cons_iff.mp hrecent
  · exact failing
  · exact hfailing recent hrecent

/-- An account that is put on notice begins to wait. -/
theorem Waited.start {turn : Turn} {p : Params}
    (ok : (turn.outcome host (after host turns)).1 = .ok ())
    (params : (World.ofStore (after host turns)).run Program.params =
      (.ok p, World.ofStore (after host turns)))
    (ends : turn.time.add? p.gracePeriod = some t)
    (failing : (after host (turn :: turns)).Failing a s) : Waited host (turn :: turns) a s t := by
  refine ⟨[], turn, turns, p, rfl, ok, params, Timestamp.add?_eq_some_iff.mp ends, ?_⟩
  intro recent hrecent
  obtain rfl := List.suffix_nil.mp hrecent
  exact failing

/-- A scheduled account that has climbed fails in the store. -/
theorem failing_of_climbed {store : Store} {L : Ledger} {r : Record}
    (keeps : (World.ofStore store).Keeps L) (climbed : Roster.Climbed L.records)
    (found : L.records.get? a = some r) (scheduled : r.downgradeAt = some t) :
    store.Failing a r.status := by
  have hunmet : (r.status.assess r).overall = false := (climbed a r found).unmet (by simp [scheduled])
  rw [Store.Failing, keeps.toOption_run_record, found, Option.map_some, hunmet]

/-- **Every schedule is the memory of a notice**: a scheduled account has waited for its grace period to
end at the time of the schedule. -/
theorem waited_after (quiet : host.Quiet) (settles : ∀ turn ∈ turns, turn.operation.Settles) :
    ∃ L, (World.ofStore (after host turns)).Keeps L ∧ L.InStep ∧ Roster.Climbed L.records ∧
      ∀ a r t, L.records.get? a = some r → r.downgradeAt = some t →
        Waited host turns a r.status t := by
  induction turns with
  | nil => exact ⟨.empty, keeps_empty, .empty, .empty, fun a r t hr => by simp [Ledger.empty] at hr⟩
  | cons turn earlier ih =>
      obtain ⟨L, hkeeps, hstep, hclimbed, hwaited⟩ :=
        ih fun u hu => settles u (List.mem_cons_of_mem _ hu)
      have hsettles := settles turn List.mem_cons_self
      obtain ⟨L', hkeeps', hstep', ⟨-, rfl⟩ | ⟨hok, ms, hmakes, hpath⟩⟩ :=
        keeps_outcome quiet hkeeps hstep turn
      · refine ⟨L', hkeeps', hstep', hclimbed, fun a r t hr ht => ?_⟩
        exact (hwaited a r t hr ht).cons (failing_of_climbed hkeeps' hclimbed hr ht)
      · have hfull := hkeeps.stored.full
        have hafter := hpath.invariant (I := fun M => Roster.Full M.records ∧ Roster.Climbed M.records)
          (fun mv hmv M M' htakes hM => ⟨htakes.full hM.1,
            htakes.climbed ((hmakes.allows hmv).settles hsettles) hM.1 hM.2⟩) ⟨hfull, hclimbed⟩
        refine ⟨L', hkeeps', hstep', hafter.2, fun a r' t hr' ht => ?_⟩
        have hfailing := failing_of_climbed hkeeps' hafter.2 hr' ht
        obtain ⟨r, hr, hscheduled, hsame⟩ | hnew :=
          hmakes.noticed hsettles hpath hfull a r' t hr' ht
        · have hbefore := hwaited a r t hr hscheduled
          rw [← hsame] at hbefore
          exact hbefore.cons hfailing
        · exact .start hok hkeeps.run_params hnew hfailing

/-- **No tier is lost without a grace period.** An account that has a lower tier after a turn than before
it loses it at the beginning of a block; it loses one tier; and it has waited, failing the requirement
of that tier all the time, for a grace period that is over. -/
theorem graced_after (quiet : host.Quiet) {turn : Turn}
    (settles : ∀ u ∈ turn :: turns, u.operation.Settles) {before later : Status}
    (had : (after host turns).HasTier a before) (has : (after host (turn :: turns)).HasTier a later)
    (lost : later < before) :
    turn.operation = .beginBlock ∧ before.prev? = some later ∧
      ∃ ends, ends ≤ turn.time ∧ Waited host turns a before ends := by
  obtain ⟨L, hkeeps, hstep, hclimbed, hwaited⟩ :=
    waited_after quiet fun u hu => settles u (List.mem_cons_of_mem _ hu)
  obtain ⟨L', hkeeps', -, hcourse⟩ := keeps_outcome quiet hkeeps hstep turn
  rw [Store.HasTier, hkeeps.toOption_run_record] at had
  obtain ⟨r, hr, rfl⟩ := Option.map_eq_some_iff.mp had
  have has' : (L'.records.get? a).map Record.status = some later := by
    rw [← hkeeps'.toOption_run_record]
    exact has
  obtain ⟨r', hr', rfl⟩ := Option.map_eq_some_iff.mp has'
  obtain ⟨-, rfl⟩ | ⟨-, ms, hmakes, hpath⟩ := hcourse
  · obtain rfl := Option.some.inj (hr.symm.trans hr')
    exact absurd lost (Status.lt_irrefl _)
  · have hfull := hkeeps.stored.full
    have hlowers : ∃ mv ∈ ms, mv.Lowers := by
      by_contra hnone
      push Not at hnone
      obtain ⟨r₁, hr₁, hle⟩ := hpath.notLowered hnone hfull a r hr
      obtain rfl := Option.some.inj (hr'.symm.trans hr₁)
      exact absurd lost (Nat.not_lt.mpr hle)
    obtain ⟨mv, hmv, hlower⟩ := hlowers
    have hblock := (hmakes.allows hmv).eq_beginBlock hlower
    rw [hblock] at hmakes
    obtain ⟨due, hdistinct, rfl⟩ := hmakes
    refine ⟨hblock, ?_⟩
    obtain hsame | ⟨t, r₁, hscheduled, hdue, hr₁, hstatus⟩ :=
      Ledger.Path.status_of_lower hdistinct hpath hfull hclimbed hr
    · obtain rfl := Option.some.inj (hr'.symm.trans hsame)
      exact absurd lost (Status.lt_irrefl _)
    · obtain rfl := Option.some.inj (hr'.symm.trans hr₁)
      refine ⟨?_, t, hdue, hwaited a r t hr hscheduled⟩
      cases hprev : r.status.prev? with
      | none =>
          rw [hprev, Option.getD_none] at hstatus
          rw [hstatus] at lost
          exact absurd lost (Status.lt_irrefl _)
      | some below => rw [hstatus, hprev, Option.getD_some]

/-- The referral of the small history gets a stake and loses it, and with it the tier it had come to,
when its grace period is over. -/
theorem graced_after_small :
    let turns : List Turn := ⟨⟨30⟩, .changeStake SmallHistory.leaf (-1)⟩ :: SmallHistory.turns.tail
    let turn : Turn := ⟨⟨1000000⟩, .beginBlock⟩
    (Host.standalone.Quiet ∧ (∀ u ∈ turn :: turns, u.operation.Settles) ∧
      (after Host.standalone turns).HasTier SmallHistory.leaf .starter ∧
      (after Host.standalone (turn :: turns)).HasTier SmallHistory.leaf .new ∧
      Status.new < Status.starter) ∧
    (turn.operation = .beginBlock ∧ Status.starter.prev? = some Status.new ∧
      ∃ ends, ends ≤ turn.time ∧
        Waited Host.standalone turns SmallHistory.leaf .starter ends) := by
  intro turns turn
  have hsettles : ∀ u ∈ turn :: turns, u.operation.Settles := by
    simp [turn, turns, SmallHistory.turns, Operation.Settles]
  have had : (after Host.standalone turns).HasTier SmallHistory.leaf .starter := by
    unfold Store.HasTier
    decide +kernel
  have has : (after Host.standalone (turn :: turns)).HasTier SmallHistory.leaf .new := by
    unfold Store.HasTier
    decide +kernel
  have hlost : Status.new < Status.starter := by decide
  exact ⟨⟨Host.quiet_standalone, hsettles, had, has, hlost⟩,
    graced_after Host.quiet_standalone hsettles had has hlost⟩

end Forest

end ReferralForest

import ReferralForest.Proofs.Ledger.Draft
import ReferralForest.Proofs.Ledger.Reading

/-!
# Carrying Cascades Out

A cascade that is carried out buffers the records it puts and writes them at its end, while it writes
queue and relation entries at once. All of that together is what the cascade yields on a draft: the
store under the buffered records *mirrors* the draft at every step, and the final writes give the
store the records of the draft.

## Main definitions

* `Mirrors` — a world in the course of a cascade, and the draft it stands for.

## Main statements

* `Mirrors.run_buffered` — step for step, a buffered cascade does to its world what it does to the
  draft.
* `World.Keeps.of_run_commit` — a cascade that is carried out leaves the ledger it yields.
* `World.Keeps.breaks_of_run_commit`, `World.Keeps.run_commit_of_breaks` — a cascade that is carried out
  fails where it fails on the draft, or where a listener fails.
-/

namespace ReferralForest

/-- A world in the course of a cascade mirrors a draft: its store holds the draft's ledger with the
records there were before, and the buffered ones lie over them. -/
structure Mirrors (base : Roster) (log : List Entry) (w : World) (D : Draft) : Prop where
  /-- What is written at once is in the store. -/
  keeps : w.Keeps { D.toLedger with records := base }
  /-- The records are those buffered, and below them those stored. -/
  records : ∀ a, D.records.get? a = (w.batch.records.get? a).or (base.get? a)
  /-- The events wait in the batch. -/
  callbacks : D.callbacks = w.batch.callbacks
  /-- The notices are in the log. -/
  log : w.log = log ++ D.notices.map Entry.notice

/-! ### Buffered steps -/

namespace Mirrors

open Cascade

variable {base : Roster} {log : List Entry} {w : World} {D : Draft}

/-- A batch with nothing in it mirrors the beginning of a change. -/
theorem start {L : Ledger} (h : w.Keeps L) :
    Mirrors L.records w.log { w with batch := .empty } L.draft where
  keeps := ⟨h.free, h.stored⟩
  records a := by simp [Batch.empty, Ledger.draft]
  callbacks := rfl
  log := by simp [Ledger.draft]

/-- What a program that writes one slot at once does to the draft. -/
theorem of_becomes {L : Ledger} {w' : World} (h : Mirrors base log w D)
    (hw : w.Becomes { L with records := base } w') (hL : L.records = D.records) :
    Mirrors base log w' (D.withLedger L) where
  keeps := hw.1
  records a := by
    rw [Draft.toLedger_withLedger, hL, hw.2.1]
    exact h.records a
  callbacks := h.callbacks.trans (congrArg Batch.callbacks hw.2.1.symm)
  log := hw.2.2.trans h.log

/-- **One step**, buffered and on the draft. -/
theorem run_serve (h : Mirrors base log w D) (step : Step) :
    ∃ w', w.run step.serve = ((D.answer step).1, w') ∧ Mirrors base log w' (D.answer step).2 := by
  cases step with
  | load a =>
      refine ⟨w, ?_, h⟩
      rw [Step.serve, World.run_bind_of_ok w.run_batch]
      cases hr : w.batch.records.get? a with
      | some r =>
          simp only [Draft.answer, h.records a, hr, Option.some_or]
          rfl
      | none =>
          have hread := World.run_attempt_of_ok (h.keeps.run_record? a)
          simp only [Draft.answer, h.records a, hr, Option.none_or]
          exact hread
  | put a r =>
      refine ⟨_, (World.run_bind_of_ok w.run_batch _).trans (w.run_keep _), ?_⟩
      refine ⟨⟨h.keeps.free, h.keeps.stored⟩, fun b => ?_, h.callbacks, h.log⟩
      classical
      simp only [Draft.answer, Draft.withLedger, Ledger.put, SortedMap.get?_insert, h.records b]
      split <;> simp
  | announce callback =>
      refine ⟨_, (World.run_bind_of_ok w.run_batch _).trans (w.run_keep _), ?_⟩
      refine ⟨⟨h.keeps.free, h.keeps.stored⟩, h.records, ?_, h.log⟩
      exact congrArg (·.insert callback ()) h.callbacks
  | tell notice =>
      refine ⟨_, w.run_tell _, ?_⟩
      refine ⟨⟨h.keeps.free, h.keeps.stored⟩, h.records, h.callbacks, ?_⟩
      simp [Draft.answer, Draft.tell, h.log]
  | params => exact ⟨w, World.run_attempt_of_ok h.keeps.run_params, h⟩
  | enqueue t a =>
      obtain ⟨w', hrun, hw⟩ := h.keeps.run_schedule t a
      exact ⟨w', World.run_attempt_of_ok hrun, h.of_becomes hw rfl⟩
  | dequeue t a =>
      obtain ⟨w', hrun, hw⟩ := h.keeps.run_unschedule t a
      exact ⟨w', World.run_attempt_of_ok hrun, h.of_becomes hw rfl⟩
  | relate parent child =>
      obtain ⟨w', hrun, hw⟩ := h.keeps.run_relate parent child
      exact ⟨w', World.run_attempt_of_ok hrun, h.of_becomes hw rfl⟩

/-- **A buffered cascade** ends as it ends on the draft, and leaves a world that mirrors the draft it
leaves. -/
theorem run_buffered {α : Type} (h : Mirrors base log w D) (c : Cascade α) :
    ∃ w', w.run c.buffered = ((c.runWith (fun step D => D.answer step) D).1, w') ∧
      Mirrors base log w' (c.runWith (fun step D => D.answer step) D).2 := by
  induction c generalizing w D with
  | done a => exact ⟨w, rfl, h⟩
  | fail e => exact ⟨w, rfl, h⟩
  | ask step next ih =>
      obtain ⟨reply, D₁, hanswer⟩ := D.exists_answer_eq_ok step
      obtain ⟨w₁, hserve, h₁⟩ := h.run_serve step
      rw [hanswer] at hserve h₁
      obtain ⟨w', hrun, h'⟩ := ih reply h₁
      rw [Dialogue.runWith, hanswer]
      exact ⟨w', (World.run_bind_of_ok hserve _).trans hrun, h'⟩

end Mirrors

/-! ### The final writes -/

/-- Announcing events to quiet listeners writes nothing. -/
theorem Host.Quiet.silent_announceAll {host : Host} (quiet : host.Quiet) (l : List (Callback × Unit)) :
    Program.Silent (Cascade.announceAll host l) := by
  induction l with
  | nil => trivial
  | cons e rest ih => exact Dialogue.Only.bind (quiet.silent_announce e.1) fun _ => ih

namespace World

variable {α : Type} {w w' : World} {L : Ledger}

/-- Writing records one by one. -/
theorem Keeps.run_writeAll (h : w.Keeps L) {l : List (AccountId × Record)}
    (full : ∀ e ∈ l, e.2.generations.length = generationCount) :
    ∃ w', w.run (Cascade.writeAll l) = (.ok (), w') ∧
      w'.Keeps { L with records := l.foldl (fun m e => m.insert e.1 e.2) L.records } := by
  induction l generalizing w L with
  | nil => exact ⟨w, rfl, h⟩
  | cons e rest ih =>
      obtain ⟨w₁, hset, hw₁⟩ := h.run_setRecord (full e List.mem_cons_self)
      obtain ⟨w', hrest, hw'⟩ := ih hw₁.1 fun e' he' => full e' (List.mem_cons_of_mem _ he')
      exact ⟨w', (run_bind_of_ok hset _).trans hrest, hw'⟩

/-- Announcing events to quiet listeners leaves the store as it is. -/
theorem store_run_announceAll {host : Host} (quiet : host.Quiet) (free : w.store.Unlimited)
    (l : List (Callback × Unit)) : (w.run (Cascade.announceAll host l)).2.store = w.store :=
  store_run_of_silent (quiet.silent_announceAll l) free

/-- Announcing events fails only where a listener does. -/
theorem inCallback_of_run_announceAll {host : Host} {l : List (Callback × Unit)} {e : Error}
    (h : w.run (Cascade.announceAll host l) = (.error e, w')) :
    ∃ target e₀, e = Error.inCallback target e₀ := by
  induction l generalizing w with
  | nil => simp [Cascade.announceAll] at h
  | cons entry rest ih =>
      obtain ⟨target, ⟨⟩⟩ := entry
      obtain hannounce | ⟨_, w₁, -, hrest⟩ := run_bind_eq_error_iff.mp h
      · obtain ⟨e₀, -, he⟩ := run_mapError_eq_error_iff.mp hannounce
        exact ⟨target, e₀, he⟩
      · exact ih hrest

end World

namespace Mirrors

variable {base : Roster} {log : List Entry} {w w' : World} {D : Draft} {host : Host}

/-- Writing what is buffered gives the store the records of the draft. -/
theorem run_writeAll (h : Mirrors base log w D) (full : Roster.Full D.records) :
    ∃ w', World.run { w with batch := .empty } (Cascade.writeAll w.batch.records.toList) =
        (.ok (), w') ∧ w'.Keeps D.toLedger := by
  have hkeeps : World.Keeps { w with batch := .empty } { D.toLedger with records := base } :=
    ⟨h.keeps.free, h.keeps.stored⟩
  have hfull : ∀ e ∈ w.batch.records.toList, e.2.generations.length = generationCount := by
    rintro ⟨a, r⟩ he
    refine full a r ?_
    rw [h.records a, SortedMap.mem_toList_iff.mp he, Option.some_or]
  have hrecords : w.batch.records.toList.foldl (fun m e => m.insert e.1 e.2) base = D.records := by
    refine SortedMap.ext_get? fun a => ?_
    rw [SortedMap.get?_foldl_insert, h.records a]
  obtain ⟨w', hwrite, hw'⟩ := hkeeps.run_writeAll hfull
  rw [hrecords] at hw'
  exact ⟨w', hwrite, hw'⟩

/-- What is left to do after the writes is to announce the events. -/
theorem run_flush_eq (h : Mirrors base log w D) (full : Roster.Full D.records) (host : Host) :
    ∃ w₁ : World, w₁.Keeps D.toLedger ∧ w.run (Cascade.flush host) =
      w₁.run (Cascade.announceAll host w.batch.callbacks.toList) := by
  obtain ⟨w₁, hwrite, hw₁⟩ := h.run_writeAll full
  refine ⟨w₁, hw₁, ?_⟩
  rw [Cascade.flush, World.run_bind_of_ok w.run_batch, World.run_bind_of_ok (w.run_keep .empty)]
  exact World.run_bind_of_ok hwrite _

/-- Writing and announcing what is buffered gives the store the records of the draft. -/
theorem of_run_flush (quiet : host.Quiet) (h : Mirrors base log w D) (full : Roster.Full D.records)
    (hrun : w.run (Cascade.flush host) = (.ok (), w')) : w'.Keeps D.toLedger := by
  obtain ⟨w₁, hw₁, hflush⟩ := h.run_flush_eq full host
  have hstore := World.store_run_announceAll quiet hw₁.free w.batch.callbacks.toList
  rw [← hflush, hrun] at hstore
  have hsame : w'.store = w₁.store := hstore
  exact ⟨hsame ▸ hw₁.free, hsame ▸ hw₁.stored⟩

end Mirrors

namespace World

variable {α : Type} {w w' : World} {L : Ledger}

/-- **A cascade that is carried out** yields a draft, and leaves its ledger. -/
theorem Keeps.of_run_commit {host : Host} (quiet : host.Quiet) (h : w.Keeps L) {c : Cascade α}
    {a : α} (full : ∀ D, c.Yields L.draft a D → Roster.Full D.records)
    (hrun : w.run (c.commit host) = (.ok a, w')) :
    ∃ D, c.Yields L.draft a D ∧ w'.Keeps D.toLedger := by
  rw [Cascade.commit] at hrun
  rw [run_bind_of_ok (w.run_keep .empty)] at hrun
  obtain ⟨b, w₂, hbuffered, hrest⟩ := run_bind_eq_ok_iff.mp hrun
  obtain ⟨_, w₃, hflush, hdone⟩ := run_bind_eq_ok_iff.mp hrest
  obtain ⟨hb, rfl⟩ := Prod.mk.inj hdone
  obtain rfl := Except.ok.inj hb
  obtain ⟨w₂', hbuffered', hmirrors⟩ := (Mirrors.start h).run_buffered c
  obtain ⟨hresult, rfl⟩ := Prod.mk.inj (hbuffered.symm.trans hbuffered')
  refine ⟨_, Prod.ext hresult.symm rfl, ?_⟩
  exact hmirrors.of_run_flush quiet (full _ (Prod.ext hresult.symm rfl)) hflush

/-- **A cascade that fails when it is carried out** fails on the draft, or a listener fails. -/
theorem Keeps.breaks_of_run_commit {host : Host} (h : w.Keeps L) {c : Cascade α} {e : Error}
    (full : ∀ a D, c.Yields L.draft a D → Roster.Full D.records)
    (hrun : w.run (c.commit host) = (.error e, w')) :
    (∃ D, c.Breaks L.draft e D) ∨ ∃ target e₀, e = Error.inCallback target e₀ := by
  rw [Cascade.commit, run_bind_of_ok (w.run_keep .empty)] at hrun
  obtain ⟨w₁, hbuffered, hmirrors⟩ := (Mirrors.start h).run_buffered c
  obtain hfailed | ⟨a, w₂, hdone, hrest⟩ := run_bind_eq_error_iff.mp hrun
  · obtain ⟨hresult, -⟩ := Prod.mk.inj (hbuffered.symm.trans hfailed)
    exact .inl ⟨_, Prod.ext hresult rfl⟩
  · obtain ⟨hresult, rfl⟩ := Prod.mk.inj (hbuffered.symm.trans hdone)
    obtain hflush | ⟨_, w₃, -, hreturn⟩ := run_bind_eq_error_iff.mp hrest
    · obtain ⟨w₄, -, hannounce⟩ := hmirrors.run_flush_eq (full a _ (Prod.ext hresult rfl)) host
      exact .inr (inCallback_of_run_announceAll (hannounce.symm.trans hflush))
    · simp at hreturn

/-- **A cascade that fails on the draft** fails when it is carried out. -/
theorem Keeps.run_commit_of_breaks {host : Host} (h : w.Keeps L) {c : Cascade α} {e : Error} {D : Draft}
    (hbreaks : c.Breaks L.draft e D) : ∃ w', w.run (c.commit host) = (.error e, w') := by
  obtain ⟨w', hbuffered, -⟩ := (Mirrors.start h).run_buffered c
  rw [hbreaks] at hbuffered
  refine ⟨w', ?_⟩
  rw [Cascade.commit, run_bind_of_ok (w.run_keep .empty)]
  exact run_bind_of_error hbuffered _

end World

end ReferralForest

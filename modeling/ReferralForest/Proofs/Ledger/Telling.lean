import ReferralForest.Proofs.Ledger.Commit

/-!
# What a Cascade Tells

Besides the ledger there is the log. A cascade that is carried out tells the notices of the draft it
yields, before anything is announced; what the log gains afterwards comes from the listeners. So all of
a run but the announcements is the same for all hosts, and a host that has lost its listeners shows what
an operation does of itself.

## Main definitions

* `Host.deaf` — a host without its listeners.
* `Host.Discreet` — the hosts none of whose listeners tells a notice.
* `Host.SameListeners` — the hosts that have the same listeners to an event.

## Main statements

* `World.Keeps.exists_run_commit` — a cascade that is carried out, up to the announcements.
* `World.Keeps.run_commit_deaf` — a cascade that is carried out and heard by nobody.
-/

namespace ReferralForest

/-! ### Programs that tell nothing -/

/-- Whether a call adds a line to the log. -/
def Call.tells : Call → Bool
  | .tell _ => true
  | _ => false

/-- Whether a call adds a notice to the log. -/
def Call.notifies : Call → Bool
  | .tell (.notice _) => true
  | _ => false

namespace World

variable {α : Type} {w : World}

/-- **A program that tells nothing** leaves the log as it is. -/
theorem log_run_of_only {p : Program α} (hp : p.Only fun call => call.tells = false) :
    (w.run p).2.log = w.log := by
  refine Dialogue.Only.runWith (I := fun v : World => v.log = w.log) (fun call v hcall hv => ?_) hp rfl
  cases call with
  | tell entry => contradiction
  | _ => exact hv

/-- Notices that are told are the notices of the log. -/
theorem notices_of_log_eq_map {w' : World} {ns : List Notice}
    (h : w'.log = w.log ++ ns.map Entry.notice) : w'.notices = w.notices ++ ns := by
  simp [notices, h, List.filterMap_map]

/-- **A program that tells no notice** leaves the notices as they are. -/
theorem notices_run_of_only {p : Program α} (hp : p.Only fun call => call.notifies = false) :
    (w.run p).2.notices = w.notices := by
  refine Dialogue.Only.runWith (I := fun v : World => v.notices = w.notices)
    (fun call v hcall hv => ?_) hp rfl
  cases call with
  | tell entry =>
      cases entry with
      | notice n => contradiction
      | _ => simpa [answer, notices] using hv
  | _ => exact hv

end World

/-- Writing records tells nothing. -/
theorem Cascade.only_writeAll (l : List (AccountId × Record)) :
    (writeAll l).Only fun call => call.tells = false := by
  induction l with
  | nil => trivial
  | cons e rest ih =>
      refine Dialogue.Only.bind ?_ fun _ => ih
      exact Dialogue.Only.bind ⟨rfl, fun _ => trivial⟩ fun _ => Dialogue.only_ofExcept _ _

/-! ### Hosts and their listeners -/

namespace Host

/-- **A host without its listeners.** -/
def deaf (host : Host) : Host := { host with listeners := [] }

/-- **The hosts none of whose listeners tells a notice.** -/
def Discreet (host : Host) : Prop :=
  ∀ entry ∈ host.listeners, ∀ account, (entry.2 account).Only fun call => call.notifies = false

/-- **The hosts that have the same listeners to an event**, in the same order. -/
def SameListeners (event : Event) (host host' : Host) : Prop :=
  host.listeners.filter (·.1 = event) = host'.listeners.filter (·.1 = event)

/-- A host without listeners writes nothing when an event is announced. -/
theorem quiet_deaf (host : Host) : host.deaf.Quiet := by simp [Quiet, deaf]

/-- Only listeners to an event hear of it. -/
theorem announceAll_congr {host host' : Host} {l : List (Callback × Unit)}
    (same : ∀ e ∈ l, SameListeners e.1.event host host') :
    Cascade.announceAll host l = Cascade.announceAll host' l := by
  induction l with
  | nil => rfl
  | cons e rest ih =>
      obtain ⟨target, ⟨⟩⟩ := e
      have hfirst : host.announce target = host'.announce target := by
        have hsame : host.listeners.filter (·.1 = target.event) =
            host'.listeners.filter (·.1 = target.event) := same _ List.mem_cons_self
        rw [announce, announce, hsame]
      rw [Cascade.announceAll, Cascade.announceAll, hfirst]
      rw [ih fun e he => same e (List.mem_cons_of_mem _ he)]

/-- Nobody is called where nobody listens. -/
theorem announceAll_deaf (host : Host) (l : List (Callback × Unit)) :
    Cascade.announceAll host.deaf l = .done () := by
  induction l with
  | nil => rfl
  | cons e rest ih => exact ih

/-- Announcing events to discreet listeners tells no notice. -/
theorem Discreet.notices_run_announceAll {host : Host} (discreet : host.Discreet) (w : World)
    (l : List (Callback × Unit)) : (w.run (Cascade.announceAll host l)).2.notices = w.notices := by
  refine World.notices_run_of_only ?_
  induction l with
  | nil => trivial
  | cons e rest ih => exact Dialogue.Only.bind (only_announce discreet e.1) fun _ => ih

end Host

/-! ### Cascades that are carried out -/

namespace World.Keeps

variable {α : Type} {w : World} {L : Ledger} {c : Cascade α} {a : α} {D : Draft}

/-- **A cascade that is carried out**, up to the announcements: the ledger it yields is written and the
notices are told, the same for all hosts. -/
theorem exists_run_commit (h : w.Keeps L) (yields : c.Yields L.draft a D)
    (full : Roster.Full D.records) :
    ∃ w₁ : World, w₁.Keeps D.toLedger ∧ w₁.log = w.log ++ D.notices.map Entry.notice ∧
      ∀ host, w.run (c.commit host) =
        w₁.run (Cascade.announceAll host D.callbacks.toList >>= fun _ => pure a) := by
  obtain ⟨w₂, hbuffered, hmirrors⟩ := (Mirrors.start h).run_buffered c
  have hruns : c.runWith (fun step D => D.answer step) L.draft = (.ok a, D) := yields
  rw [hruns] at hbuffered hmirrors
  obtain ⟨w₁, hwrite, hw₁⟩ := hmirrors.run_writeAll full
  have hlog := log_run_of_only (w := { w₂ with batch := .empty })
    (Cascade.only_writeAll w₂.batch.records.toList)
  rw [hwrite] at hlog
  refine ⟨w₁, hw₁, hlog.trans hmirrors.log, fun host => ?_⟩
  have hflush : w₂.run (Cascade.flush host) =
      w₁.run (Cascade.announceAll host D.callbacks.toList) := by
    rw [Cascade.flush, run_bind_of_ok w₂.run_batch, run_bind_of_ok (w₂.run_keep .empty),
      run_bind_of_ok hwrite, hmirrors.callbacks]
  rw [Cascade.commit, run_bind_of_ok (w.run_keep .empty), run_bind_of_ok hbuffered]
  exact run_bind_congr hflush _

/-- **A cascade that is carried out and heard by nobody.** -/
theorem run_commit_deaf (h : w.Keeps L) (yields : c.Yields L.draft a D)
    (full : Roster.Full D.records) (host : Host) :
    ∃ w' : World, w.run (c.commit host.deaf) = (.ok a, w') ∧ w'.Keeps D.toLedger ∧
      w'.log = w.log ++ D.notices.map Entry.notice := by
  obtain ⟨w₁, hkeeps, hlog, hrun⟩ := h.exists_run_commit yields full
  refine ⟨w₁, ?_, hkeeps, hlog⟩
  rw [hrun, host.announceAll_deaf]
  rfl

end World.Keeps

end ReferralForest

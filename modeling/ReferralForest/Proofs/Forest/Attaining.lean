import ReferralForest.Proofs.Forest.History

/-!
# Runs that Succeed

That a program leads somewhere says nothing about whether it gets there. A program *attains* a condition
if every run of it, from a world that keeps a given ledger, succeeds and ends in a world whose ledger
meets the condition. Programs are put together and carried out in branches; a cascade that yields a
draft attains the ledger of the draft, as long as no listener fails or there is nothing to announce.

## Main definitions

* `Host.Unfailing` — the hosts none of whose listeners fails.
* `Draft.Announceable` — the drafts whose events no listener can keep from being announced.
* `Program.Attains` — what a program attains.
* `Forest.completed?` — the store after turns all of which succeed.

## Main statements

* `World.Keeps.run_commit` — a cascade that yields a draft is carried out.
* `Forest.exists_outcome` — a turn whose operation attains a condition succeeds.
-/

namespace ReferralForest

/-- **The hosts none of whose listeners fails**, whatever the ledger of the store. -/
def Host.Unfailing (host : Host) : Prop :=
  ∀ entry ∈ host.listeners, ∀ (account : AccountId) (w : World) (L : Ledger), w.Keeps L →
    (w.run (entry.2 account)).1 = .ok ()

/-! ### Listeners -/

/-- A recording listener that is given no error to fail with does not fail. -/
theorem World.Keeps.run_recording {w : World} {L : Ledger} (h : w.Keeps L) (n : Nat) (event : Event)
    (target : Option AccountId) (looks : Bool) (a : AccountId) :
    (w.run (Listener.recording n event target looks none a)).1 = .ok () := by
  simp only [Listener.recording]
  split
  · split
    · have hlook := World.run_map_of_ok (h.run_record? a) some
      rw [World.run_bind_of_ok hlook, World.run_bind_of_ok (w.run_tell _)]
      rfl
    · rfl
  · rfl

/-- The listener of the small host does not fail. -/
theorem Host.unfailing_standalone : Host.standalone.Unfailing := by
  rintro entry hentry a w L hw
  obtain rfl := List.mem_singleton.mp hentry
  exact hw.run_recording 0 .stakeChanged none true a

namespace World.Keeps

variable {w : World} {L : Ledger} {host : Host}

/-- The ledger is in the store. -/
theorem of_store_eq (h : w.Keeps L) {w' : World} (same : w'.store = w.store) : w'.Keeps L :=
  ⟨same ▸ h.free, same ▸ h.stored⟩

/-- Calling listeners that neither write nor fail. -/
theorem run_callAll (quiet : host.Quiet) (unfailing : host.Unfailing) (h : w.Keeps L)
    {l : List (Event × Listener)} (known : ∀ entry ∈ l, entry ∈ host.listeners) (a : AccountId) :
    ∃ w', w.run (Host.callAll l a) = (.ok (), w') ∧ w'.store = w.store := by
  induction l generalizing w with
  | nil => exact ⟨w, rfl, rfl⟩
  | cons entry rest ih =>
      have hmem := known entry List.mem_cons_self
      have hok := unfailing entry hmem a w L h
      have hstore := store_run_of_silent (quiet entry hmem a) h.free
      obtain ⟨w', hrest, hsame⟩ := ih (h.of_store_eq hstore)
        fun e he => known e (List.mem_cons_of_mem _ he)
      exact ⟨w', (run_bind_of_ok (Prod.ext hok rfl) _).trans hrest, hsame.trans hstore⟩

/-- Announcing events to listeners that neither write nor fail. -/
theorem run_announceAll (quiet : host.Quiet) (unfailing : host.Unfailing) (h : w.Keeps L)
    (l : List (Callback × Unit)) : ∃ w', w.run (Cascade.announceAll host l) = (.ok (), w') := by
  induction l generalizing w with
  | nil => exact ⟨w, rfl⟩
  | cons e rest ih =>
      obtain ⟨w₁, hcall, hstore⟩ := h.run_callAll quiet unfailing
        (l := host.listeners.filter (·.1 = e.1.event)) (fun _ he => (List.mem_filter.mp he).1)
        e.1.account
      obtain ⟨w', hrest⟩ := ih (h.of_store_eq hstore)
      exact ⟨w', (run_bind_of_ok (run_mapError_of_ok hcall _) _).trans hrest⟩

end World.Keeps

/-- **The events of a draft can be announced** if no listener fails, or if there are none. -/
def Draft.Announceable (host : Host) (D : Draft) : Prop :=
  host.Unfailing ∨ D.callbacks.toList = []

/-- Writing and announcing what is buffered succeeds. -/
theorem Mirrors.run_flush {base : Roster} {log : List Entry} {w : World} {D : Draft} {host : Host}
    (quiet : host.Quiet) (announceable : D.Announceable host) (h : Mirrors base log w D)
    (full : Roster.Full D.records) :
    ∃ w', w.run (Cascade.flush host) = (.ok (), w') ∧ w'.Keeps D.toLedger := by
  obtain ⟨w₁, hw₁, hflush⟩ := h.run_flush_eq full host
  obtain ⟨w', hannounce⟩ : ∃ w', w₁.run (Cascade.announceAll host w.batch.callbacks.toList) =
      (.ok (), w') := by
    rcases announceable with unfailing | hnone
    · exact hw₁.run_announceAll quiet unfailing _
    · rw [← h.callbacks, hnone]
      exact ⟨w₁, rfl⟩
  have hrun := hflush.trans hannounce
  exact ⟨w', hrun, h.of_run_flush quiet full hrun⟩

/-- **A cascade that yields a draft is carried out**, and leaves the ledger of the draft. -/
theorem World.Keeps.run_commit {α : Type} {w : World} {L : Ledger} {host : Host} (quiet : host.Quiet)
    (h : w.Keeps L) {c : Cascade α} {a : α} {D : Draft} (yields : c.Yields L.draft a D)
    (announceable : D.Announceable host) (full : Roster.Full D.records) :
    ∃ w', w.run (c.commit host) = (.ok a, w') ∧ w'.Keeps D.toLedger := by
  obtain ⟨w₁, hbuffered, hmirrors⟩ := (Mirrors.start h).run_buffered c
  have hruns : c.runWith (fun step D => D.answer step) L.draft = (.ok a, D) := yields
  rw [hruns] at hbuffered hmirrors
  obtain ⟨w', hflush, hkeeps⟩ := hmirrors.run_flush quiet announceable full
  refine ⟨w', ?_, hkeeps⟩
  rw [Cascade.commit, World.run_bind_of_ok (w.run_keep .empty), World.run_bind_of_ok hbuffered,
    World.run_bind_of_ok hflush]
  rfl

/-! ### Programs -/

/-- **What a program attains** from a ledger: every run of it succeeds, and ends in a world that keeps a
ledger of which the condition holds. -/
def Program.Attains {α : Type} (p : Program α) (L : Ledger) (post : α → Ledger → Prop) : Prop :=
  ∀ w : World, w.Keeps L → ∃ a w' L', w.run p = (.ok a, w') ∧ w'.Keeps L' ∧ post a L'

namespace Program

variable {α β : Type} {L : Ledger} {post : α → Ledger → Prop}

/-- A program that is done has attained what holds of the ledger. -/
theorem Attains.done {a : α} (h : post a L) : Attains (.done a) L post :=
  fun w hw => ⟨a, w, L, rfl, hw, h⟩

/-- One program after another. -/
theorem Attains.bind {p : Program β} {f : β → Program α} {mid : β → Ledger → Prop}
    (hp : p.Attains L mid) (hf : ∀ b L', mid b L' → (f b).Attains L' post) :
    (p >>= f).Attains L post := by
  intro w hw
  obtain ⟨b, w₁, L₁, hrun, hw₁, hmid⟩ := hp w hw
  obtain ⟨a, w', L', hrest, hw', hpost⟩ := hf b L₁ hmid w₁ hw₁
  exact ⟨a, w', L', (World.run_bind_of_ok hrun f).trans hrest, hw', hpost⟩

/-- What follows from what is attained is attained. -/
theorem Attains.mono {p : Program α} {post' : α → Ledger → Prop} (hp : p.Attains L post)
    (h : ∀ a L', post a L' → post' a L') : p.Attains L post' := by
  intro w hw
  obtain ⟨a, w', L', hrun, hw', hpost⟩ := hp w hw
  exact ⟨a, w', L', hrun, hw', h a L' hpost⟩

/-- A program that only reads. -/
theorem Attains.of_run {p : Program α} {a : α} (h : ∀ w : World, w.Keeps L → w.run p = (.ok a, w)) :
    p.Attains L fun b L' => b = a ∧ L' = L :=
  fun w hw => ⟨a, w, L, h w hw, hw, rfl, rfl⟩

/-- **What a program attains it leads to**, and all else that it leads to as well. -/
theorem Attains.and_leads {p : Program α} {post' : α → Ledger → Prop} (hp : p.Attains L post)
    (hl : p.Leads L post') : p.Attains L fun a L' => post a L' ∧ post' a L' := by
  intro w hw
  obtain ⟨a, w', L', hrun, hw', hpost⟩ := hp w hw
  obtain ⟨L'', hw'', hpost'⟩ := hl w w' a hw hrun
  obtain rfl := hw'.unique hw''
  exact ⟨a, w', L', hrun, hw', hpost, hpost'⟩

/-- A value at hand is attained. -/
theorem attains_ofExcept {x : Except Error α} {a : α} (h : x = .ok a) :
    Attains (.ofExcept x) L fun b L' => b = a ∧ L' = L :=
  .of_run fun w _ => h ▸ w.run_ofExcept (.ok a)

/-- Whether an account has a record is read off the ledger. -/
theorem attains_hasRecord (a : AccountId) :
    (hasRecord a).Attains L fun b L' => b = (L.records.get? a).isSome ∧ L' = L :=
  .of_run fun _ hw => hw.run_hasRecord a

/-- The store has no fewer keys than there are records. -/
theorem attains_size : size.Attains L fun n L' => L.records.size ≤ n ∧ L' = L :=
  fun w hw => ⟨w.store.size, w, L, World.run_request w Call.size, hw, hw.stored.size_records_le, rfl⟩

/-- **A cascade that is carried out** attains what it yields. -/
theorem attains_commit {host : Host} (quiet : host.Quiet) {c : Cascade α} {a : α} {D : Draft}
    (yields : c.Yields L.draft a D) (announceable : D.Announceable host)
    (full : Roster.Full D.records) :
    (c.commit host).Attains L fun b L' => b = a ∧ L' = D.toLedger := by
  intro w hw
  obtain ⟨w', hrun, hw'⟩ := hw.run_commit quiet yields announceable full
  exact ⟨a, w', D.toLedger, hrun, hw', rfl, rfl⟩

end Program

/-! ### Turns -/

namespace Forest

variable {host : Host}

/-- **A turn whose operation attains a condition** succeeds. -/
theorem exists_outcome (turn : Turn) {store : Store} {L : Ledger} {post : Ledger → Prop}
    (keeps : (World.ofStore store).Keeps L)
    (attains : (turn.operation.program host turn.time).Attains L fun _ L' => post L') :
    ∃ w L', turn.outcome host store = (.ok (), w) ∧ (World.ofStore w.store).Keeps L' ∧ post L' := by
  obtain ⟨_, w₁, L', hrun, hw₁, hpost⟩ := attains _ keeps.branch
  obtain ⟨store', htransact, hfree, hview⟩ := World.transact_of_run keeps.free hrun
  exact ⟨{ w₁ with store := store' }, L', htransact, ⟨hfree, hview.symm ▸ hw₁.stored⟩, hpost⟩

/-- **The store after turns all of which succeed**, given in order; nothing if one of them fails. -/
def completed? (host : Host) : List Turn → Store → Option Store
  | [], store => some store
  | turn :: rest, store =>
    match turn.outcome host store with
    | (.ok (), w) => completed? host rest w.store
    | (.error _, _) => none

/-- A turn that succeeds, and the turns after it. -/
theorem completed?_cons_eq_some_iff {turn : Turn} {rest : List Turn} {store store' : Store} :
    completed? host (turn :: rest) store = some store' ↔
      ∃ w, turn.outcome host store = (.ok (), w) ∧ completed? host rest w.store = some store' := by
  rw [completed?]
  split
  next w heq => simp [heq]
  next e w heq => simp [heq]

end Forest

end ReferralForest

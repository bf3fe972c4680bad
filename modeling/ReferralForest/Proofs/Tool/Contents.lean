import ReferralForest.Proofs.Tool.Atomic

/-!
# What the Tool's Store Holds

The tool is opened anew for every action, perhaps under another configuration. Whatever was done with it,
its store has no branch, holds what a ledger becomes whose queue is in step with its records, and has no
key that is too long for the medium: actions that read leave the store alone, and of those that write the
medium takes only what it can hold. So a program that writes over such contents is refused just if it
leaves a key in memory that is too long.

## Main definitions

* `Store.Fits` — a map without a key that is too long.
* `Tool.Use`, `Tool.after` — the uses of the tool, and the store after some of them.
* `Tool.Contents` — what the store holds then.

## Main statements

* `Tool.write_of_fits` — the ends of a program that writes over contents that fit.
* `Action.store_run_of_reads` — actions that read leave the store as it is.
* `Tool.contents_after` — what the store holds after every use.
-/

namespace ReferralForest

/-! ### Programs that read -/

namespace Program

/-- Listing a range writes nothing. -/
theorem silent_range (r : KeyRange) : (range r).Silent :=
  Dialogue.Only.bind ⟨rfl, fun _ => trivial⟩ fun _ => Dialogue.only_ofExcept _ _

/-- Counting the keys writes nothing. -/
theorem silent_size : size.Silent := ⟨rfl, fun _ => trivial⟩

/-- Reading the parameters writes nothing. -/
theorem silent_params : params.Silent := by
  refine Dialogue.Only.bind (silent_get _) fun found => ?_
  cases found with
  | none => trivial
  | some bytes => exact Dialogue.only_ofExcept _ _

/-- Reading a record that must be there writes nothing. -/
theorem silent_record (a : AccountId) : (record a).Silent := by
  refine Dialogue.Only.bind (silent_record? a) fun found => ?_
  cases found <;> trivial

/-- Listing the queue writes nothing. -/
theorem silent_scheduled : scheduled.Silent :=
  Dialogue.Only.bind (silent_range _) fun _ => Dialogue.only_ofExcept _ _

/-- Asking for the status of an account writes nothing. -/
theorem silent_checkStatus (a : AccountId) (s : Status) : (checkStatus a s).Silent := by
  rw [checkStatus]
  dsimp only
  split
  · trivial
  · exact Dialogue.Only.bind (silent_record a) fun _ => trivial

end Program

namespace Forest

open Program

/-- Listing the roots writes nothing. -/
theorem silent_roots : roots.Silent :=
  Dialogue.Only.bind (silent_range _) fun _ => Dialogue.only_ofExcept _ _

/-- Listing the referrals of an account writes nothing. -/
theorem silent_children (a : AccountId) : (children a).Silent :=
  Dialogue.Only.bind (silent_range _) fun _ => Dialogue.only_ofExcept _ _

/-- Reading the records of listed accounts writes nothing. -/
theorem silent_withRecords (l : List AccountId) : (withRecords l).Silent := by
  induction l with
  | nil => trivial
  | cons a rest ih =>
      exact Dialogue.Only.bind (silent_record a) fun _ => Dialogue.Only.bind ih fun _ => trivial

/-- Writing out one level as a document writes nothing to the store. -/
theorem silent_exportLevel (level : List (AccountId × Record)) : (exportLevel level).Silent := by
  induction level with
  | nil => trivial
  | cons e rest ih =>
      refine Dialogue.Only.bind (silent_children e.1) fun l => ?_
      refine Dialogue.Only.bind (silent_withRecords l) fun _ => ?_
      exact Dialogue.Only.bind ih fun _ => trivial

/-- Writing out levels as a document writes nothing to the store. -/
theorem silent_exportLevels (bound : Nat) (level : List (AccountId × Record)) :
    (exportLevels bound level).Silent := by
  induction bound generalizing level with
  | zero => cases level <;> trivial
  | succ bound ih =>
      cases level with
      | nil => trivial
      | cons e rest =>
          refine Dialogue.Only.bind (silent_exportLevel (e :: rest)) fun written => ?_
          exact Dialogue.Only.bind (ih written.below) fun _ => trivial

/-- Writing the forest out writes nothing to the store. -/
theorem silent_exportGenesis : exportGenesis.Silent := by
  refine Dialogue.Only.bind silent_params fun _ => ?_
  refine Dialogue.Only.bind silent_roots fun l => ?_
  refine Dialogue.Only.bind (silent_withRecords l) fun top => ?_
  refine Dialogue.Only.bind silent_size fun bound => ?_
  exact Dialogue.Only.bind (silent_exportLevels bound top) fun _ => trivial

/-- Handing out shares writes nothing. -/
theorem silent_splitFrom (shares : List Fraction) (level : Nat) (ancestor : Option AccountId)
    (burn : Fraction) : (splitFrom level shares ancestor burn).Silent := by
  have hburn : ∀ burn share, (addBurn burn share).Silent := by
    intro burn share
    rw [addBurn]
    cases burn.add? share <;> trivial
  induction shares generalizing level ancestor burn with
  | nil => cases ancestor <;> trivial
  | cons share rest ih =>
      cases ancestor with
      | none => exact Dialogue.Only.bind (hburn burn share) fun _ => ih _ _ _
      | some a =>
          refine Dialogue.Only.bind (silent_record a) fun r => ?_
          split
          · exact Dialogue.Only.bind (ih _ _ _) fun _ => by split <;> trivial
          · exact Dialogue.Only.bind (hburn burn share) fun _ => ih _ _ _

/-- Telling how a delegation would be shared out writes nothing. -/
theorem silent_feeSplit (a : AccountId) : (feeSplit a).Silent := by
  refine Dialogue.Only.bind silent_params fun p => ?_
  exact Dialogue.Only.bind (silent_record a) fun r => silent_splitFrom _ _ _ _

end Forest

/-- **A silent program over the medium** leaves the store as it is. -/
theorem World.store_run_onMedium {α : Type} {m : SortedMap Key Value} {p : Program α} (hp : p.Silent)
    {w : World} (h : w.store = .onMedium m) : (w.run p).2.store = .onMedium m := by
  refine Dialogue.Only.runWith (I := fun v : World => v.store = .onMedium m)
    (fun call v hcall hv => ?_) hp h
  obtain ⟨store, batch, log⟩ := v
  obtain rfl : store = .onMedium m := hv
  cases call with
  | get key => by_cases hkey : key = [] <;> simp [answer, onStore, Store.onMedium, Store.get,
      Store.onBase, Store.Base.get, Store.Base.access, Store.Policy.admit, hkey]
  | write write => contradiction
  | range r => cases hr : r.isEmpty <;> simp [answer, onStore, Store.onMedium, Store.range,
      Store.onBase, Store.Base.range, Store.Base.access, Store.Policy.admit, hr]
  | _ => rfl

/-! ### Maps that fit -/

/-- **A map without a key that is too long** for the medium. -/
def Store.Fits (m : SortedMap Key Value) : Prop :=
  ∀ k, m.contains k = true → k.length ≤ maxKeyLength

/-- **A program that writes over contents that fit.** It fails as it fails in memory; if it succeeds
there, it is refused just if it leaves a key that is too long. -/
theorem Tool.write_of_fits {p : Program Unit} (proper : p.Only Call.Proper) {m : SortedMap Key Value}
    (fits : Store.Fits m) :
    (∃ e, ((World.ofStore (.ofEntries m)).run p).1 = .error e ∧
        Tool.write p (.onMedium m) = (.error (.ofError e), .onMedium m)) ∨
      ∃ w, (World.ofStore (.ofEntries m)).run p = (.ok (), w) ∧
        (Store.Fits w.store.view ∧
            Tool.write p (.onMedium m) = (.ok w.notices, .onMedium w.store.view) ∨
          ¬ Store.Fits w.store.view ∧
            Tool.write p (.onMedium m) = (.error (.persisting .keySize), .onMedium m)) := by
  refine (write_onMedium_cases proper m).imp_right ?_
  rintro ⟨w, hdirect, ⟨hwrite, hnew⟩ | ⟨hwrite, k, hk, hlong⟩⟩
  · exact ⟨w, hdirect, .inl ⟨fun k hk => (hnew k hk).elim (fits k) id, hwrite⟩⟩
  · exact ⟨w, hdirect, .inr ⟨fun hfits => Nat.not_le.mpr hlong (hfits k hk), hwrite⟩⟩

/-! ### Uses of the tool -/

/-- **Actions that read** leave the store as it is. -/
theorem Action.store_run_of_reads {host : Host} {action : Action}
    (reads : action.operation? host = none) (now : Timestamp) (m : SortedMap Key Value) :
    (action.run host now (.onMedium m)).2 = .onMedium m := by
  have hread : ∀ {α : Type} {p : Program α}, p.Silent →
      (Tool.read p (.onMedium m)).2 = .onMedium m :=
    fun hp => World.store_run_onMedium hp rfl
  have hask : ∀ {α : Type} {query : Query α}, (∀ p, query = .ok p → p.Silent) →
      (Tool.ask query (.onMedium m)).2 = .onMedium m := by
    intro α query hquery
    cases query with
    | error e => rfl
    | ok p => exact World.store_run_onMedium (hquery p rfl) rfl
  have habout : ∀ {α : Type} {address : String} {program : AccountId → Program α},
      (∀ a, (program a).Silent) → ∀ p, Query.about host address program = .ok p → p.Silent := by
    intro α address program hprogram p hp
    rw [Query.about] at hp
    split at hp
    · exact Except.ok.inj hp ▸ hprogram _
    · contradiction
  cases action with
  | initGenesis text =>
      simp only [operation?] at reads
      split at reads <;> contradiction
  | register request => contradiction
  | stake address delta =>
      simp only [operation?] at reads
      split at reads <;> contradiction
  | beginBlock => contradiction
  | exportGenesis => exact hread (p := Forest.exportGenesis) Forest.silent_exportGenesis
  | record address => exact hask (habout Program.silent_record)
  | children address =>
      refine hask fun p hp => ?_
      rw [Query.children] at hp
      split at hp
      · exact Except.ok.inj hp ▸ trivial
      · exact habout Forest.silent_children p hp
  | checkStatus address s => exact hask (habout fun a => Program.silent_checkStatus a s)
  | fees address =>
      have hfees : (Tool.withAccount host address (fun a => Tool.read (Forest.feeSplit a))
          (.onMedium m)).2 = .onMedium m := by
        rw [Tool.withAccount]
        split
        · exact hread (Forest.silent_feeSplit _)
        · rfl
      exact hfees
  | downgrades => exact hread (p := Program.scheduled) Program.silent_scheduled

/-- A host without listeners writes nothing when an event is announced. -/
theorem Tool.quiet_of_hostOf {config : Config} {host : Host} (h : hostOf config = .ok host) :
    host.Quiet := by
  rw [hostOf] at h
  split at h
  · contradiction
  · obtain rfl := Except.ok.inj h
    exact fun _ hentry => absurd hentry List.not_mem_nil

namespace Tool

/-- **A use of the tool**: an action under a configuration, as of a time. -/
structure Use where
  /-- The configuration. -/
  config : Config
  /-- The time. -/
  time : Timestamp
  /-- The action. -/
  action : Action

/-- Carries out a use, if its configuration is one for an engine. -/
def Use.run (use : Use) (store : Store) : Except Failure (Option Document) × Store :=
  match hostOf use.config with
  | .ok host => use.action.run host use.time store
  | .error failure => (.error failure, store)

/-- **The store of the tool** after some uses, latest first, of which any may have failed. -/
def after : List Use → Store
  | [] => .onMedium .empty
  | use :: earlier => (use.run (after earlier)).2

/-- **What the store of the tool holds**: no key that is too long, and what a ledger becomes whose queue
is in step with its records. -/
structure Contents (m : SortedMap Key Value) (L : Ledger) : Prop where
  /-- No key is too long. -/
  fits : Store.Fits m
  /-- It is what the ledger becomes. -/
  stored : L.StoredIn m
  /-- The queue is in step. -/
  inStep : L.InStep

variable {m : SortedMap Key Value} {L : Ledger}

/-- A store in memory with the same contents keeps the ledger. -/
theorem Contents.keeps (h : Contents m L) : (World.ofStore (.ofEntries m)).Keeps L :=
  ⟨rfl, h.stored⟩

/-- **A use of the tool** leaves such contents. -/
theorem Contents.exists_run (h : Contents m L) (use : Use) :
    ∃ m' L', (use.run (.onMedium m)).2 = .onMedium m' ∧ Contents m' L' := by
  rw [Use.run]
  cases hhost : hostOf use.config with
  | error failure => exact ⟨m, L, rfl, h⟩
  | ok host =>
      dsimp only
      cases hop : use.action.operation? host with
      | none => exact ⟨m, L, Action.store_run_of_reads hop use.time m, h⟩
      | some planned =>
          rw [Action.run_eq_carryOut hop]
          cases planned with
          | error failure => exact ⟨m, L, rfl, h⟩
          | ok op =>
              rw [Action.carryOut]
              have proper := (op.orderly_program (Action.aloof_of_hostOf hhost) use.time).only
              rcases write_of_fits proper h.fits with
                ⟨e, -, hwrite⟩ | ⟨w, hdirect, ⟨hfits, hwrite⟩ | ⟨-, hwrite⟩⟩
              · exact ⟨m, L, by rw [hwrite], h⟩
              · have hfull := h.stored.full
                obtain ⟨L', hw, ms, -, hpath⟩ := op.leads_program (quiet_of_hostOf hhost) hfull h.inStep
                  use.time _ w () h.keeps hdirect
                obtain ⟨-, hstep⟩ := hpath.invariant (I := fun M => M.records.Full ∧ M.InStep)
                  (fun _ _ _ _ htakes hM => ⟨htakes.full hM.1, htakes.inStep hM.1 hM.2⟩) ⟨hfull, h.inStep⟩
                exact ⟨w.store.view, L', by rw [hwrite], hfits, hw.stored, hstep⟩
              · exact ⟨m, L, by rw [hwrite], h⟩

/-- **What the store holds** after every series of uses. -/
theorem contents_after (uses : List Use) : ∃ m L, after uses = .onMedium m ∧ Contents m L := by
  induction uses with
  | nil => exact ⟨.empty, .empty, rfl, fun k hk => by simp [SortedMap.contains] at hk,
      Ledger.storedIn_empty, .empty⟩
  | cons use earlier ih =>
      obtain ⟨m, L, hstore, hcontents⟩ := ih
      rw [after, hstore]
      exact hcontents.exists_run use

end Tool

end ReferralForest

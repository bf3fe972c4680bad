import ReferralForest.Proofs.Forest.History
import ReferralForest.Proofs.Forest.Orderly
import ReferralForest.Tool.Action

/-!
# Actions that Write

The tool's store lies on a medium that refuses some keys. An action that writes runs in a branch over
it. As long as a program names no empty key, the branch hides the medium: the program sees what it would
see in a plain map with the same entries, its own writes included, and the medium is asked once, at the
end, to take all writes or none. So an action either fails and leaves the store as it was, or leaves what
the same operation leaves in memory.

## Main definitions

* `Store.onMedium` — a store whose bottom limits the size of keys.
* `World.flat` — a world whose store is the plain map that the branches show.
* `Action.operation?`, `Action.report` — what an action carries out, and what it answers.

## Main statements

* `Store.Base.apply_keySized` — a batch is taken as a whole or not at all.
* `World.run_sheltered` — a branch hides the medium.
* `Tool.write_onMedium` — the ends of a program that writes.
* `Action.run_atomic` — the ends of an action.
-/

namespace ReferralForest

namespace Store

/-! ### The medium -/

/-- A store without branches on a medium that limits the size of keys. -/
def onMedium (m : SortedMap Key Value) : Store := ⟨⟨m, .keySized⟩, []⟩

/-- The writes that the medium takes. -/
def Storable (w : Write) : Prop := w.1 ≠ [] ∧ (w.2 ≠ none → w.1.length ≤ maxKeyLength)

instance (w : Write) : Decidable (Storable w) :=
  inferInstanceAs (Decidable (w.1 ≠ [] ∧ (w.2 ≠ none → w.1.length ≤ maxKeyLength)))

namespace Base

/-- The medium admits the writes that are storable. -/
theorem admit_write_eq (w : Write) :
    Policy.keySized.admit (.write w) =
      (if Storable w then .ok () else .error .keySize, .keySized) := by
  obtain ⟨key, value⟩ := w
  cases value <;> simp [Storable, Policy.admit]

/-- The medium takes a write that is storable. -/
theorem write_of_storable {w : Write} (h : Storable w) (m : SortedMap Key Value) :
    write w ⟨m, .keySized⟩ = (.ok (), ⟨put m w, .keySized⟩) := by
  simp [write, access, admit_write_eq, h]

/-- The medium refuses every other write, and stays as it was. -/
theorem write_of_not_storable {w : Write} (h : ¬ Storable w) (m : SortedMap Key Value) :
    write w ⟨m, .keySized⟩ = (.error .keySize, ⟨m, .keySized⟩) := by
  simp [write, access, admit_write_eq, h]

/-- Writes one by one: all of them, or up to one that the medium does not take. -/
theorem writeEach_keySized (ws : List Write) (m : SortedMap Key Value) :
    (∀ w ∈ ws, Storable w) ∧
        writeEach ws ⟨m, .keySized⟩ = (.ok (), ⟨ws.foldl put m, .keySized⟩) ∨
      (∃ w ∈ ws, ¬ Storable w) ∧ ∃ base, writeEach ws ⟨m, .keySized⟩ = (.error .keySize, base) := by
  induction ws generalizing m with
  | nil => exact .inl ⟨by simp, rfl⟩
  | cons w rest ih =>
      by_cases hw : Storable w
      · rw [writeEach, write_of_storable hw]
        rcases ih (put m w) with ⟨hall, hrun⟩ | ⟨⟨w', hmem, hw'⟩, hrun⟩
        · exact .inl ⟨List.forall_mem_cons.mpr ⟨hw, hall⟩, hrun⟩
        · exact .inr ⟨⟨w', List.mem_cons_of_mem w hmem, hw'⟩, hrun⟩
      · rw [writeEach, write_of_not_storable hw]
        exact .inr ⟨⟨w, List.mem_cons_self, hw⟩, _, rfl⟩

/-- **A batch** is taken as a whole, or the medium stays as it was. -/
theorem apply_keySized (ws : List Write) (m : SortedMap Key Value) :
    (∀ w ∈ ws, Storable w) ∧ apply ws ⟨m, .keySized⟩ = (.ok (), ⟨ws.foldl put m, .keySized⟩) ∨
      (∃ w ∈ ws, ¬ Storable w) ∧ apply ws ⟨m, .keySized⟩ = (.error .keySize, ⟨m, .keySized⟩) := by
  rcases writeEach_keySized ws m with ⟨hall, hrun⟩ | ⟨hsome, base, hrun⟩
  · exact .inl ⟨hall, by rw [apply, hrun]⟩
  · exact .inr ⟨hsome, by rw [apply, hrun]⟩

end Base

/-! ### A branch over the medium -/

/-- A store with one branch over the medium, which was given no empty key. -/
def Sheltered (m : SortedMap Key Value) (store : Store) : Prop :=
  ∃ o : Overlay, store = ⟨⟨m, .keySized⟩, [o]⟩ ∧ ∀ k, o.get? k ≠ none → k ≠ []

variable {m : SortedMap Key Value} {store : Store}

/-- A new branch over the medium is sheltered. -/
theorem sheltered_branch (m : SortedMap Key Value) : (onMedium m).branch.Sheltered m :=
  ⟨.empty, rfl, fun k h => absurd (SortedMap.get?_empty k) h⟩

/-- A sheltered store finds what its view has. -/
theorem Sheltered.get_eq (h : store.Sheltered m) {key : Key} (hkey : key ≠ []) :
    store.get key = (.ok (store.view.get? key), store) := by
  obtain ⟨o, rfl, -⟩ := h
  rw [get?_view, get]
  cases [o].findSome? (·.get? key) with
  | some buffered => rfl
  | none => simp [onBase, Base.get, Base.access, Policy.admit, hkey]

/-- A sheltered store lists what its view has: the medium lists what a store in memory lists. -/
theorem Sheltered.range_eq (h : store.Sheltered m) (range : KeyRange) :
    store.range range = (.ok (store.view.filter fun k _ => range.contains k).toList, store) := by
  obtain ⟨o, rfl, -⟩ := h
  have free : (⟨⟨m, .free⟩, [o]⟩ : Store).Unlimited := rfl
  have hmemory := congrArg Prod.fst (range_eq_view free range)
  refine Prod.ext (Eq.trans ?_ hmemory) ?_
  · rw [Store.range, Store.range]
    cases range.isEmpty <;> rfl
  · rw [Store.range]
    cases range.isEmpty <;> rfl

/-- A sheltered store buffers a write and stays sheltered. -/
theorem Sheltered.write_eq (h : store.Sheltered m) {w : Write} (hkey : w.1 ≠ []) :
    ∃ store', store.write w = (.ok (), store') ∧ store'.Sheltered m ∧
      store'.view = put store.view w := by
  obtain ⟨o, rfl, hproper⟩ := h
  refine ⟨⟨⟨m, .keySized⟩, [o.insert w.1 w.2]⟩, rfl, ⟨_, rfl, fun k hk => ?_⟩, o.over_insert w m⟩
  rw [SortedMap.get?_insert] at hk
  split at hk
  next heq => rwa [heq]
  next => exact hproper k hk

/-- Discarding the branch leaves the medium. -/
theorem Sheltered.discard_eq (h : store.Sheltered m) : store.discard = onMedium m := by
  obtain ⟨o, rfl, -⟩ := h
  rfl

/-- **A commit** onto the medium puts what the branch shows there, or changes nothing. In the first case
no key that it adds is too long, in the second a key of what the branch shows is. -/
theorem Sheltered.commit_eq (h : store.Sheltered m) :
    store.commit = (.ok (), onMedium store.view) ∧
        (∀ k, store.view.contains k = true → m.contains k = true ∨ k.length ≤ maxKeyLength) ∨
      store.commit = (.error .keySize, onMedium m) ∧
        ∃ k, store.view.contains k = true ∧ maxKeyLength < k.length := by
  obtain ⟨o, rfl, hproper⟩ := h
  have hover : ∀ k, (view ⟨⟨m, .keySized⟩, [o]⟩).contains k = ((o.over m).get? k).isSome :=
    fun _ => rfl
  rcases Base.apply_keySized o.toList m with
    ⟨hall, happly⟩ | ⟨⟨⟨key, value⟩, hmem, hlong⟩, happly⟩
  · refine .inl ⟨by simp only [commit, apply, onBase, happly]; rfl, fun k hk => ?_⟩
    rw [hover, Overlay.get?_over] at hk
    cases hbuffered : o.get? k with
    | none =>
        rw [hbuffered] at hk
        exact .inl hk
    | some value =>
        rw [hbuffered] at hk
        obtain ⟨v, rfl⟩ := Option.isSome_iff_exists.mp hk
        exact .inr ((hall _ (SortedMap.mem_toList_iff.mpr hbuffered)).2 (by simp))
  · refine .inr ⟨by simp only [commit, apply, onBase, happly]; rfl, key, ?_⟩
    have hbuffered : o.get? key = some value := SortedMap.mem_toList_iff.mp hmem
    have hkey : key ≠ [] := hproper key (by simp [hbuffered])
    simp only [Storable, ne_eq, hkey, not_false_eq_true, true_and, Classical.not_imp] at hlong
    obtain ⟨v, rfl⟩ := Option.ne_none_iff_exists'.mp hlong.1
    refine ⟨?_, Nat.not_le.mp hlong.2⟩
    rw [hover, Overlay.get?_over, hbuffered]
    rfl

end Store

/-! ### Programs in a branch -/

namespace World

variable {α : Type} {m : SortedMap Key Value} {w : World}

/-- The world whose store is the plain map that the branches show. -/
def flat (w : World) : World := { w with store := .ofEntries w.store.view }

/-- **A call in a branch** is answered as in memory. -/
theorem answer_flat (h : w.store.Sheltered m) {call : Call} (proper : call.Proper) :
    w.flat.answer call = ((w.answer call).1, (w.answer call).2.flat) ∧
      (w.answer call).2.store.Sheltered m := by
  obtain ⟨store, batch, log⟩ := w
  have free : (Store.ofEntries store.view).Unlimited := rfl
  have hview : (Store.ofEntries store.view).view = store.view := rfl
  cases call with
  | get key =>
      simp only [answer, onStore, flat, Store.get_eq_view free, hview, h.get_eq proper]
      exact ⟨rfl, h⟩
  | range r =>
      simp only [answer, onStore, flat, Store.range_eq_view free, hview, h.range_eq r]
      exact ⟨rfl, h⟩
  | write write =>
      obtain ⟨store', hwrite, hsheltered, hview'⟩ := h.write_eq proper
      have hmemory : (Store.ofEntries store.view).write write =
          (.ok (), .ofEntries (Store.put store.view write)) := rfl
      simp only [answer, onStore, flat, hwrite, hmemory, hview']
      exact ⟨rfl, hsheltered⟩
  | size => exact ⟨rfl, h⟩
  | tell entry => exact ⟨rfl, h⟩
  | batch => exact ⟨rfl, h⟩
  | keep b => exact ⟨rfl, h⟩

/-- **A branch hides the medium.** A program that names no empty key ends in it as it ends in memory, and
leaves a branch that shows what is in memory then. -/
theorem run_sheltered {p : Program α} (proper : p.Only Call.Proper) (h : w.store.Sheltered m) :
    w.flat.run p = ((w.run p).1, (w.run p).2.flat) ∧ (w.run p).2.store.Sheltered m := by
  induction p generalizing w with
  | done a => exact ⟨rfl, h⟩
  | fail e => exact ⟨rfl, h⟩
  | ask call next ih =>
      obtain ⟨reply, w', hanswer⟩ := w.exists_answer call
      obtain ⟨hflat, hsheltered⟩ := answer_flat h proper.1
      rw [hanswer] at hflat hsheltered
      rw [run_ask hflat, run_ask hanswer]
      exact ih reply (proper.2 reply) hsheltered

end World

/-! ### Actions -/

/-- **A program that writes** over the medium fails as it fails in memory, or is refused at the end since
a key of what it leaves in memory is too long; the store is as it was then. Else the store is left with
what is left in memory, which has no new key that is too long, and the notices are those told there. -/
theorem Tool.write_onMedium_cases {p : Program Unit} (proper : p.Only Call.Proper)
    (m : SortedMap Key Value) :
    (∃ e, ((World.ofStore (.ofEntries m)).run p).1 = .error e ∧
        Tool.write p (.onMedium m) = (.error (.ofError e), .onMedium m)) ∨
      ∃ w, (World.ofStore (.ofEntries m)).run p = (.ok (), w) ∧
        (Tool.write p (.onMedium m) = (.ok w.notices, .onMedium w.store.view) ∧
            (∀ k, w.store.view.contains k = true →
              m.contains k = true ∨ k.length ≤ Store.maxKeyLength) ∨
          Tool.write p (.onMedium m) = (.error (.persisting .keySize), .onMedium m) ∧
            ∃ k, w.store.view.contains k = true ∧ Store.maxKeyLength < k.length) := by
  let b : World := { World.ofStore (.onMedium m) with
    store := (World.ofStore (.onMedium m)).store.branch }
  have hflat : b.flat = World.ofStore (.ofEntries m) := by
    exact congrArg (fun m => World.ofStore (.ofEntries m)) (Store.onMedium m).view_branch
  have hrun := World.run_sheltered (w := b) proper (Store.sheltered_branch m)
  rw [hflat] at hrun
  cases hb : b.run p with
  | mk result w =>
      rw [hb] at hrun
      obtain ⟨hmemory, hsheltered⟩ := hrun
      cases result with
      | error e =>
          refine .inl ⟨e, by rw [hmemory], ?_⟩
          rw [Tool.write, World.inBranch, show World.run _ p = _ from hb]
          exact congrArg (Prod.mk _) hsheltered.discard_eq
      | ok u =>
          refine .inr ⟨w.flat, hmemory, ?_⟩
          rw [Tool.write, World.inBranch, show World.run _ p = _ from hb]
          rcases hsheltered.commit_eq with ⟨hcommit, hfits⟩ | ⟨hcommit, hlong⟩
          · refine .inl ⟨?_, hfits⟩
            simp only [Except.mapError, hcommit]
            rfl
          · refine .inr ⟨?_, hlong⟩
            simp only [Except.mapError, hcommit]
            rfl

/-- **The ends of a program that writes** over the medium. -/
theorem Tool.write_onMedium {p : Program Unit} (proper : p.Only Call.Proper)
    (m : SortedMap Key Value) :
    (∃ e, ((World.ofStore (.ofEntries m)).run p).1 = .error e ∧
        Tool.write p (.onMedium m) = (.error (.ofError e), .onMedium m)) ∨
      ∃ w, (World.ofStore (.ofEntries m)).run p = (.ok (), w) ∧
        (Tool.write p (.onMedium m) = (.ok w.notices, .onMedium w.store.view) ∨
          Tool.write p (.onMedium m) = (.error (.persisting .keySize), .onMedium m) ∧
            ∃ k, w.store.view.contains k = true ∧ Store.maxKeyLength < k.length) := by
  refine (write_onMedium_cases proper m).imp_right ?_
  rintro ⟨w, hdirect, hends⟩
  exact ⟨w, hdirect, hends.imp_left And.left⟩

namespace Action

/-- What an action that writes comes to: an operation, or a failure to tell which one. -/
def operation? (host : Host) : Action → Option (Except Failure Operation)
  | initGenesis text =>
    match (Document.parse text).bind Form.genesis.read with
    | none => some (.error ⟨"parsing genesis", []⟩)
    | some genesis => some (.ok (.importGenesis genesis))
  | register request => some (.ok (.register request))
  | stake address delta =>
    match host.parseAddress address with
    | .error e => some (.error (.ofError e))
    | .ok account => some (.ok (.changeStake account delta))
  | beginBlock => some (.ok .beginBlock)
  | exportGenesis | record _ | children _ | checkStatus _ _ | fees _ | downgrades => none

/-- What an action that writes answers, when its operation tells these notices. -/
def report (notices : List Notice) : Action → Option Document
  | initGenesis _ => none
  | _ => some (Form.notice.list.write notices)

/-- Writes what an action comes to, and answers for the action. -/
def carryOut (host : Host) (now : Timestamp) (store : Store) (action : Action) :
    Except Failure Operation → Except Failure (Option Document) × Store
  | .error failure => (.error failure, store)
  | .ok op =>
    let (result, store) := Tool.write (op.program host now) store
    (result.map action.report, store)

/-- An action that writes carries out its operation. -/
theorem run_eq_carryOut {host : Host} {action : Action} {planned : Except Failure Operation}
    (h : action.operation? host = some planned) (now : Timestamp) (store : Store) :
    action.run host now store = action.carryOut host now store planned := by
  cases action with
  | initGenesis text =>
      simp only [operation?] at h
      cases hread : (Document.parse text).bind Form.genesis.read with
      | none | some genesis =>
          rw [hread] at h
          obtain rfl := Option.some.inj h
          simp only [run, hread]
          rfl
  | register request =>
      obtain rfl := Option.some.inj h
      rfl
  | stake address delta =>
      simp only [operation?] at h
      cases hparse : host.parseAddress address with
      | error e | ok account =>
          rw [hparse] at h
          obtain rfl := Option.some.inj h
          simp only [run, Tool.answer, Tool.withAccount, hparse]
          rfl
  | beginBlock =>
      obtain rfl := Option.some.inj h
      rfl
  | exportGenesis | record | children | checkStatus | fees | downgrades => cases h

/-- The tool's engine has no listeners. -/
theorem aloof_of_hostOf {config : Config} {host : Host} (h : Tool.hostOf config = .ok host) :
    host.Aloof := by
  rw [Tool.hostOf] at h
  split at h
  · cases h
  · obtain rfl := Except.ok.inj h
    exact fun _ hentry => absurd hentry List.not_mem_nil

/-- **Actions that write are atomic, and their branch is transparent.** An action that fails leaves the
store as it was; it fails if it comes to no operation, if the operation fails in memory, with the same
error, or if what the operation leaves in memory has a key that the store cannot hold. An action that
succeeds leaves the entries that its operation leaves in memory, and answers with the notices told
there. -/
theorem run_atomic {config : Config} {host : Host} (offline : Tool.hostOf config = .ok host)
    (now : Timestamp) (m : SortedMap Key Value) {action : Action}
    {planned : Except Failure Operation} (writes : action.operation? host = some planned) :
    let direct (op : Operation) := (World.ofStore (.ofEntries m)).run (op.program host now)
    let outcome := action.run host now (.onMedium m)
    (∀ failure, outcome.1 = .error failure → outcome.2 = .onMedium m ∧
      (planned = .error failure ∨ ∃ op, planned = .ok op ∧
        ((∃ e, (direct op).1 = .error e ∧ failure = .ofError e) ∨
          ∃ w, direct op = (.ok (), w) ∧ failure = .persisting .keySize ∧
            ∃ k, w.store.view.contains k = true ∧ Store.maxKeyLength < k.length))) ∧
    ∀ answer, outcome.1 = .ok answer → ∃ op w, planned = .ok op ∧ direct op = (.ok (), w) ∧
      outcome.2 = .onMedium w.store.view ∧ answer = action.report w.notices := by
  intro direct outcome
  have houtcome : outcome = _ := run_eq_carryOut writes now (.onMedium m)
  cases planned with
  | error failure =>
      rw [houtcome, carryOut]
      exact ⟨fun _ h => ⟨rfl, .inl (congrArg Except.error (Except.error.inj h))⟩, nofun⟩
  | ok op =>
      have proper := (op.orderly_program (aloof_of_hostOf offline) now).only
      rcases Tool.write_onMedium proper m with
        ⟨e, hdirect, hwrite⟩ | ⟨w, hdirect, hwrite | ⟨hwrite, hlong⟩⟩
      · rw [houtcome, carryOut, hwrite]
        refine ⟨fun failure h => ⟨rfl, .inr ⟨op, rfl, .inl ⟨e, hdirect, ?_⟩⟩⟩, nofun⟩
        exact (Except.error.inj h).symm
      · rw [houtcome, carryOut, hwrite]
        refine ⟨nofun, fun answer h => ⟨op, w, rfl, hdirect, rfl, ?_⟩⟩
        exact (Except.ok.inj h).symm
      · rw [houtcome, carryOut, hwrite]
        refine ⟨fun failure h => ⟨rfl, .inr ⟨op, rfl, .inr ⟨w, hdirect, ?_, hlong⟩⟩⟩, nofun⟩
        exact (Except.error.inj h).symm

/-- The small forest on a medium, where its leaf gives up a unit of stake. -/
theorem run_atomic_small :
    let m := (Forest.after Host.standalone SmallHistory.turns).view
    let op := Operation.changeStake SmallHistory.leaf (-1)
    ∃ host, Tool.hostOf .default = .ok host ∧
      (stake "leaf" (-1)).operation? host = some (.ok op) ∧
      ∃ w, (World.ofStore (.ofEntries m)).run (op.program host ⟨1000⟩) = (.ok (), w) ∧
        ((stake "leaf" (-1)).run host ⟨1000⟩ (.onMedium m)).2 = .onMedium w.store.view := by
  intro m op
  obtain ⟨host, hhost⟩ : ∃ host, Tool.hostOf .default = .ok host := ⟨_, rfl⟩
  have hop : (stake "leaf" (-1)).operation? host = some (.ok op) := by
    obtain rfl := Except.ok.inj hhost
    rfl
  have hsucceeds : (((stake "leaf" (-1)).run host ⟨1000⟩ (.onMedium m)).1.toOption).isSome := by
    obtain rfl := Except.ok.inj hhost
    decide +kernel
  refine ⟨host, hhost, hop, ?_⟩
  cases houtcome : ((stake "leaf" (-1)).run host ⟨1000⟩ (.onMedium m)).1 with
  | error failure =>
      rw [houtcome] at hsucceeds
      cases hsucceeds
  | ok answer =>
      obtain ⟨op', w, hplanned, hdirect, hstore, -⟩ :=
        (run_atomic hhost ⟨1000⟩ m hop).2 answer houtcome
      obtain rfl := Except.ok.inj hplanned
      exact ⟨w, hdirect, hstore⟩

end Action

end ReferralForest

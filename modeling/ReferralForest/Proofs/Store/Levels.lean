import Mathlib.Data.List.Dedup
import ReferralForest.Proofs.Store.Keys
import ReferralForest.Proofs.Store.View

/-!
# Nested Branches as a Stack of Maps

A store with open branches has levels: the innermost branch, the branches around it, and the bottom.
Each level can be called, also while branches are open above it. This module compares a store with a
`Journal`, which buffers nothing and merges nothing: it keeps the plain list of the writes made at each
level, and answers from the map that carrying out those lists, the outermost first, gives.

## Order of writes

The writes that a level shows are those of the levels around it, outermost first, and then its own,
each level's in the order in which they were made. As long as calls go to the innermost level, this is
the order in which all of them were made, since a write then stands last (`Journal.writes_takeAll`). A
write that goes to an outer level while a branch is open stays hidden behind what the branch has
written.

## Main statements

* `Journal.store_serve`, `Journal.store_take` — what one call, and what one step, does to a store is
  what it does to the journal.
* `takeAll_refines_journal` — so for whole runs, of any length and nesting.
-/

namespace ReferralForest

namespace Store

/-! ### Calls and steps -/

/-- A call on a level of a store. -/
inductive Request where
  /-- The value at a key. -/
  | get (key : Key)
  /-- Whether a key has a value. -/
  | has (key : Key)
  /-- The entries of a range. -/
  | range (within : KeyRange)
  /-- The entries whose keys begin with the given bytes. -/
  | beginningWith (bytes : Key)
  /-- The number of keys written at this level. -/
  | pending
  /-- One write. -/
  | write (w : Write)
  /-- A batch of writes. -/
  | apply (writes : List Write)

/-- What a call is answered with. -/
inductive Reply where
  /-- The value at a key, if it has one. -/
  | value (value : Option Value)
  /-- Whether a key has a value. -/
  | present (isThere : Bool)
  /-- Entries, in the order in which they are listed. -/
  | entries (found : List (Key × Value))
  /-- A number of keys. -/
  | count (keys : Nat)
  /-- Nothing but that it is done. -/
  | done

/-- Makes a call on the innermost level of a store. -/
def Request.serve : Request → Store → Except Fault Reply × Store
  | .get key, store => (store.get key).map (Except.map .value) id
  | .has key, store => (store.get key).map (Except.map fun found => .present found.isSome) id
  | .range within, store => (store.range within).map (Except.map .entries) id
  | .beginningWith bytes, store =>
    (store.range (.beginningWith bytes)).map (Except.map .entries) id
  | .pending, store => (.ok (.count store.pending), store)
  | .write w, store => (store.write w).map (Except.map fun _ => .done) id
  | .apply writes, store => (store.apply writes).map (Except.map fun _ => .done) id

/-- The store as it is seen from a level, counted from the innermost one outwards. -/
def below (level : Nat) (store : Store) : Store :=
  { store with branches := store.branches.drop level }

/-- Makes a call on a level. The branches above it stay as they are. -/
def onLevel {α : Type} (level : Nat) (call : Store → α × Store) (store : Store) : α × Store :=
  let (answer, below) := call (store.below level)
  (answer, { below with branches := store.branches.take level ++ below.branches })

/-- What happens to a store. -/
inductive Step where
  /-- A call on a level, counted from the innermost one outwards. -/
  | call (level : Nat) (request : Request)
  /-- A branch is opened. -/
  | branch
  /-- The innermost branch is committed. -/
  | commit
  /-- The innermost branch is dropped. -/
  | discard

/-- Takes a step. -/
def Step.take : Step → Store → Except Fault Reply × Store
  | .call level request, store => store.onLevel level request.serve
  | .branch, store => (.ok .done, store.branch)
  | .commit, store => store.commit.map (Except.map fun _ => .done) id
  | .discard, store => (.ok .done, store.discard)

/-- Takes steps one after another, and lists what they are answered with. -/
def takeAll : List Step → Store → List (Except Fault Reply) × Store
  | [], store => ([], store)
  | step :: rest, store =>
    let (reply, store) := step.take store
    let (replies, store) := takeAll rest store
    (reply :: replies, store)

/-! ### Writes, buffered -/

/-- Buffers one more write. -/
def Overlay.note (o : Overlay) (w : Write) : Overlay := o.insert w.1 w.2

/-- The buffer of a branch that was given writes. -/
def Overlay.ofWrites (ws : List Write) : Overlay := ws.foldl note .empty

/-- What is buffered at a key is what was written there last. -/
theorem Overlay.get?_note (o : Overlay) (w : Write) (k : Key) :
    (o.note w).get? k = if k = w.1 then some w.2 else o.get? k :=
  SortedMap.get?_insert o w.1 k w.2

/-- Looking through the buffer is carrying the writes out. -/
theorem Overlay.over_ofWrites (ws : List Write) (m : SortedMap Key Value) :
    (ofWrites ws).over m = ws.foldl put m :=
  over_foldl ws .empty m

/-- A key is buffered if and only if it was written. -/
theorem Overlay.mem_keys_ofWrites {ws : List Write} {k : Key} :
    k ∈ (ofWrites ws).keys ↔ k ∈ ws.map (·.1) := by
  have general : ∀ o : Overlay, (ws.foldl note o).get? k ≠ none ↔
      k ∈ ws.map (·.1) ∨ o.get? k ≠ none := by
    induction ws with
    | nil => simp
    | cons w rest ih =>
        intro o
        rw [List.foldl_cons, ih, get?_note, List.map_cons, List.mem_cons]
        split
        next h => simp [h]
        next h => simp [h]
  rw [SortedMap.mem_keys_iff, ofWrites, general]
  simp

/-- The buffer holds as many keys as were written, each counted once. -/
theorem Overlay.size_ofWrites (ws : List Write) :
    (ofWrites ws).size = (ws.map (·.1)).dedup.length := by
  have hperm : (ofWrites ws).keys.Perm (ws.map (·.1)).dedup :=
    (List.perm_ext_iff_of_nodup (SortedMap.nodup_keys _) (List.nodup_dedup _)).mpr fun k => by
      rw [mem_keys_ofWrites, List.mem_dedup]
  rw [← hperm.length_eq, SortedMap.keys, List.length_map, SortedMap.size]

/-- Handing one more buffered write on. -/
theorem Overlay.foldl_note_note (o p : Overlay) (w : Write) :
    (o.note w).toList.foldl note p = note (o.toList.foldl note p) w := by
  have hget : ∀ (o : Overlay) (k : Key),
      (o.toList.foldl note p).get? k = (o.get? k).or (p.get? k) := fun o =>
    SortedMap.get?_foldl_insert o p
  refine SortedMap.ext_get? fun k => ?_
  rw [hget, get?_note, get?_note, hget]
  split <;> rfl

/-- **A buffer handed on**, key by key, leaves what the writes themselves leave. -/
theorem Overlay.foldl_toList_ofWrites (ws : List Write) (p : Overlay) :
    (ofWrites ws).toList.foldl note p = ws.foldl note p := by
  have general : ∀ o : Overlay,
      (ws.foldl note o).toList.foldl note p = ws.foldl note (o.toList.foldl note p) := by
    induction ws with
    | nil => intro o; rfl
    | cons w rest ih =>
        intro o
        rw [List.foldl_cons, ih, foldl_note_note, List.foldl_cons]
  exact general .empty

/-! ### Journals -/

/-- What was written at each level, each list in the order in which it was written. -/
structure Journal where
  /-- The map before the first write. -/
  initial : SortedMap Key Value
  /-- The writes at the bottom. -/
  bottom : List Write
  /-- The writes of the open branches, the innermost branch first. -/
  branches : List (List Write)

namespace Journal

/-- Nothing written yet. -/
def ofMap (m : SortedMap Key Value) : Journal := ⟨m, [], []⟩

/-- The writes that the innermost level shows, in order. -/
def writes (j : Journal) : List Write := j.bottom ++ j.branches.reverse.flatten

/-- **The plain map** that the innermost level stands for. -/
def map (j : Journal) : SortedMap Key Value := j.writes.foldl put j.initial

/-- Notes writes down at the innermost level. -/
def record (ws : List Write) (j : Journal) : Journal :=
  match j.branches with
  | top :: below => { j with branches := (top ++ ws) :: below }
  | [] => { j with bottom := j.bottom ++ ws }

/-- What a call is answered with, read off the plain map, and the journal after it. -/
def answer : Request → Journal → Reply × Journal
  | .get key, j => (.value (j.map.get? key), j)
  | .has key, j => (.present (j.map.contains key), j)
  | .range within, j => (.entries (j.map.toList.filter fun e => within.contains e.1), j)
  | .beginningWith bytes, j => (.entries (j.map.toList.filter fun e => bytes <+: e.1), j)
  | .pending, j => (.count ((j.branches.headD []).map (·.1)).dedup.length, j)
  | .write w, j => (.done, j.record [w])
  | .apply ws, j => (.done, j.record ws)

/-- The journal as it is seen from a level. -/
def below (level : Nat) (j : Journal) : Journal :=
  { j with branches := j.branches.drop level }

/-- Makes a call on a level. -/
def onLevel {α : Type} (level : Nat) (call : Journal → α × Journal) (j : Journal) : α × Journal :=
  let (answer, below) := call (j.below level)
  (answer, { below with branches := j.branches.take level ++ below.branches })

/-- Closes the innermost branch and counts its writes among those of the level below. -/
def commit (j : Journal) : Journal :=
  match j.branches with
  | top :: below => { j with branches := below }.record top
  | [] => j

/-- Takes a step. -/
def take : Step → Journal → Reply × Journal
  | .call level request, j => j.onLevel level (answer request)
  | .branch, j => (.done, { j with branches := [] :: j.branches })
  | .commit, j => (.done, j.commit)
  | .discard, j => (.done, { j with branches := j.branches.tail })

/-- Takes steps one after another, and lists what they are answered with. -/
def takeAll : List Step → Journal → List Reply × Journal
  | [], j => ([], j)
  | step :: rest, j =>
    let (reply, j) := j.take step
    let (replies, j) := takeAll rest j
    (reply :: replies, j)

/-! ### The store of a journal -/

/-- The store that stands for a journal: what each branch was given last is buffered, and the writes at
the bottom are carried out. -/
def store (j : Journal) : Store :=
  ⟨⟨j.bottom.foldl put j.initial, .free⟩, j.branches.map Overlay.ofWrites⟩

/-- The store of a journal admits every call. -/
theorem store_unlimited (j : Journal) : j.store.Unlimited := rfl

/-- **The view of a journal's store** is the plain map. -/
theorem view_store (j : Journal) : j.store.view = j.map := by
  obtain ⟨initial, bottom, branches⟩ := j
  simp only [store, map, writes, view, List.foldl_append]
  induction branches with
  | nil => rfl
  | cons top below ih =>
      rw [List.map_cons, List.foldr_cons, ih, Overlay.over_ofWrites, List.reverse_cons,
        List.flatten_append, List.foldl_append, List.flatten_singleton]

/-- **A batch** is written as the journal records it. -/
theorem store_apply (ws : List Write) (j : Journal) :
    j.store.apply ws = (.ok (), (j.record ws).store) := by
  obtain ⟨initial, bottom, branches⟩ := j
  cases branches with
  | nil => simp [apply, onBase, Base.apply, Base.writeEach_free, store, record]
  | cons top below =>
      have htop : Overlay.ofWrites (top ++ ws) = ws.foldl Overlay.note (.ofWrites top) :=
        List.foldl_append
      exact congrArg (fun o : Overlay => (Except.ok (), Store.mk _ (o :: _))) htop.symm

/-- One write is a batch of one. -/
theorem store_write (w : Write) (j : Journal) :
    j.store.write w = (.ok (), (j.record [w]).store) := by
  have hbatch : j.store.write w = j.store.apply [w] := by
    obtain ⟨initial, bottom, branches⟩ := j
    cases branches <;> rfl
  rw [hbatch, store_apply]

/-- The number of keys written in a branch. -/
theorem store_pending (j : Journal) :
    j.store.pending = ((j.branches.headD []).map (·.1)).dedup.length := by
  obtain ⟨initial, bottom, branches⟩ := j
  cases branches with
  | nil => rfl
  | cons top below => exact Overlay.size_ofWrites top

/-- **One call.** A store answers as its journal does, and never refuses. -/
theorem store_serve (request : Request) (j : Journal) :
    request.serve j.store = (.ok (j.answer request).1, (j.answer request).2.store) := by
  cases request with
  | get key => rw [Request.serve, get_eq_view j.store_unlimited, view_store]; rfl
  | has key => rw [Request.serve, get_eq_view j.store_unlimited, view_store]; rfl
  | range within =>
      rw [Request.serve, range_eq_view j.store_unlimited, view_store]
      rfl
  | beginningWith bytes =>
      have hkeys : ∀ k, (KeyRange.beginningWith bytes).contains k = decide (bytes <+: k) :=
        fun k => by
          rw [Bool.eq_iff_iff, KeyRange.contains_beginningWith_iff, decide_eq_true_iff]
      rw [Request.serve, range_eq_view j.store_unlimited, view_store, funext hkeys]
      rfl
  | pending => rw [Request.serve, store_pending]; rfl
  | write w => rw [Request.serve, store_write]; rfl
  | apply ws => rw [Request.serve, store_apply]; rfl

/-! ### Steps -/

/-- The store below a level is that of the journal below it. -/
theorem store_below (level : Nat) (j : Journal) : j.store.below level = (j.below level).store := by
  rw [Store.below, store, store, below, List.map_drop]

/-- **A call on a level.** -/
theorem store_onLevel (level : Nat) (request : Request) (j : Journal) :
    j.store.onLevel level request.serve =
      (.ok (j.onLevel level (answer request)).1, (j.onLevel level (answer request)).2.store) := by
  rw [Store.onLevel, store_below, store_serve]
  simp [onLevel, store]

/-- A batch may be buffered before it is written. -/
theorem store_apply_ofWrites (ws : List Write) (j : Journal) :
    j.store.apply (Overlay.ofWrites ws).toList = j.store.apply ws := by
  obtain ⟨initial, bottom, branches⟩ := j
  cases branches with
  | nil =>
      have hover : ∀ m : SortedMap Key Value,
          (Overlay.ofWrites ws).toList.foldl put m = ws.foldl put m := Overlay.over_ofWrites ws
      simp [apply, onBase, Base.apply, Base.writeEach_free, store, hover]
  | cons top below =>
      exact congrArg (fun o : Overlay => (Except.ok (), Store.mk _ (o :: _)))
        (Overlay.foldl_toList_ofWrites ws (.ofWrites top))

/-- **A commit** counts the writes of the branch among those of the level below. -/
theorem store_commit (j : Journal) : j.store.commit = (.ok (), j.commit.store) := by
  obtain ⟨initial, bottom, branches⟩ := j
  cases branches with
  | nil => rfl
  | cons top below => exact (store_apply_ofWrites top ⟨initial, bottom, below⟩).trans (store_apply top _)

/-- **One step** does to a store what it does to its journal. -/
theorem store_take (step : Step) (j : Journal) :
    step.take j.store = (.ok (j.take step).1, (j.take step).2.store) := by
  cases step with
  | call level request => exact store_onLevel level request j
  | branch => rfl
  | commit => rw [Step.take, store_commit]; rfl
  | discard => simp [Step.take, take, store, discard]

/-- **Any number of steps.** -/
theorem store_takeAll (steps : List Step) (j : Journal) :
    Store.takeAll steps j.store =
      ((j.takeAll steps).1.map .ok, (j.takeAll steps).2.store) := by
  induction steps generalizing j with
  | nil => rfl
  | cons step rest ih =>
      rw [Store.takeAll, store_take]
      simp only [ih]
      rfl

/-! ### What lies under a level -/

/-- Recording at a branch changes neither the bottom nor the branches around it. -/
theorem answer_of_branches {j : Journal} {top : List Write} {rest : List (List Write)}
    (h : j.branches = top :: rest) (request : Request) :
    ∃ top', (j.answer request).2 = { j with branches := top' :: rest } := by
  obtain ⟨initial, bottom, branches⟩ := j
  obtain rfl : branches = top :: rest := h
  cases request with
  | write w => exact ⟨top ++ [w], rfl⟩
  | apply ws => exact ⟨top ++ ws, rfl⟩
  | get | has | range | beginningWith | pending => exact ⟨top, rfl⟩

/-- **A call on a branch** is not seen below it. -/
theorem below_onLevel {level : Nat} {j : Journal} (h : level < j.branches.length)
    (request : Request) :
    (j.onLevel level (answer request)).2.below (level + 1) = j.below (level + 1) := by
  have hdrop : j.branches.drop level = j.branches[level] :: j.branches.drop (level + 1) :=
    List.drop_eq_getElem_cons h
  obtain ⟨top', htop⟩ := answer_of_branches (j := j.below level) hdrop request
  have hcall : (j.onLevel level (answer request)).2 =
      { j with branches := j.branches.take level ++ top' :: j.branches.drop (level + 1) } := by
    rcases hanswer : answer request (j.below level) with ⟨reply, j'⟩
    obtain rfl : j' = _ := (congrArg Prod.snd hanswer).symm.trans htop
    rw [onLevel, hanswer]
    rfl
  have hlength : (j.branches.take level).length = level := List.length_take_of_le h.le
  rw [hcall, below, below, List.drop_append, hlength, Nat.add_sub_cancel_left,
    List.drop_of_length_le (hlength.le.trans (Nat.le_succ level))]
  rfl

/-- A commit does not touch the map the journal began with. -/
theorem initial_commit (j : Journal) : j.commit.initial = j.initial := by
  obtain ⟨initial, bottom, branches⟩ := j
  rcases branches with - | ⟨top, - | ⟨next, below⟩⟩ <;> rfl

/-- A commit forgets no write and changes their order nowhere. -/
theorem writes_commit (j : Journal) : j.commit.writes = j.writes := by
  obtain ⟨initial, bottom, branches⟩ := j
  rcases branches with - | ⟨top, - | ⟨next, below⟩⟩
  · rfl
  · simp [commit, record, writes]
  · simp [commit, record, writes]

/-- **The map below after a commit** is the one the branch showed. -/
theorem map_commit (j : Journal) : j.commit.map = j.map := by
  rw [map, map, writes_commit, initial_commit]

/-- A commit changes only the level that gets the writes, which is the bottom if one branch is open. -/
theorem below_commit {j : Journal} (h : j.branches ≠ []) (level : Nat) :
    j.commit.below (level + 1) = j.below (level + 2) ∨ j.branches.length = 1 := by
  obtain ⟨initial, bottom, branches⟩ := j
  rcases branches with - | ⟨top, - | ⟨next, below⟩⟩
  · exact absurd rfl h
  · exact .inr rfl
  · exact .inl rfl

/-! ### The order of writes -/

/-- **A write at the innermost level stands last** in what that level shows. -/
theorem writes_record (ws : List Write) (j : Journal) :
    (j.record ws).writes = j.writes ++ ws := by
  obtain ⟨initial, bottom, branches⟩ := j
  cases branches <;> simp [record, writes]

/-- The steps that go to the innermost level and drop nothing. -/
def Innermost : Step → Prop
  | .call level _ => level = 0
  | .branch | .commit => True
  | .discard => False

/-- The writes that a step makes. -/
def writesOf : Step → List Write
  | .call _ (.write w) => [w]
  | .call _ (.apply ws) => ws
  | _ => []

/-- What a step writes stands last. -/
theorem writes_take {step : Step} (inner : Innermost step) (j : Journal) :
    (j.take step).2.writes = j.writes ++ writesOf step := by
  cases step with
  | call level request =>
      obtain rfl : level = 0 := inner
      have hcall : (j.onLevel 0 (answer request)).2 = (j.answer request).2 := by
        simp [onLevel, below]
      rw [take, hcall]
      cases request with
      | write w => exact writes_record [w] j
      | apply ws => exact writes_record ws j
      | get | has | range | beginningWith | pending => exact (List.append_nil _).symm
  | branch => simp [take, writes, writesOf]
  | commit => exact j.writes_commit.trans (List.append_nil _).symm
  | discard => exact inner.elim

/-- **The order of writes.** As long as all calls go to the innermost level and no branch is dropped,
that level shows all writes in the order in which they were made. -/
theorem writes_takeAll {steps : List Step} (inner : ∀ step ∈ steps, Innermost step) (j : Journal) :
    (j.takeAll steps).2.writes = j.writes ++ steps.flatMap writesOf := by
  induction steps generalizing j with
  | nil => exact (List.append_nil _).symm
  | cons step rest ih =>
      obtain ⟨hstep, hrest⟩ := List.forall_mem_cons.mp inner
      have htail := ih hrest (j.take step).2
      rw [writes_take hstep, List.append_assoc] at htail
      rw [List.flatMap_cons]
      exact htail

end Journal

/-- What a store with the levels of a journal is like. -/
structure Journal.Describes (j : Journal) (store : Store) : Prop where
  /-- Each level shows the plain map of the writes at it and around it. -/
  view_below : ∀ level, (store.below level).view = (j.below level).map
  /-- Nothing called on a branch is seen below it. -/
  hidden : ∀ level (request : Request), level < store.branches.length →
    (store.onLevel level request.serve).2.below (level + 1) = store.below (level + 1)
  /-- Committing a branch succeeds. The level below then shows what the branch showed, and the levels
  further down are as before. -/
  commit : store.branches ≠ [] → ∃ store', store.commit = (.ok (), store') ∧
    store'.view = j.map ∧ ∀ level, level + 1 < store.branches.length →
      store'.below (level + 1) = store.below (level + 2)
  /-- Dropping a branch leaves the level below as it was. -/
  discard : store.discard = store.below 1

/-- A journal describes its store. -/
theorem Journal.describes_store (j : Journal) : j.Describes j.store where
  view_below level := by rw [store_below, view_store]
  hidden level request h := by
    have hlevel : level < j.branches.length := by rwa [store, List.length_map] at h
    rw [store_onLevel, store_below, store_below, below_onLevel hlevel]
  commit h := by
    have hbranches : j.branches ≠ [] := by rwa [store, ne_eq, List.map_eq_nil_iff] at h
    refine ⟨j.commit.store, j.store_commit, by rw [view_store, map_commit], fun level hlevel => ?_⟩
    rw [store, List.length_map] at hlevel
    rcases below_commit hbranches level with hbelow | hone
    · rw [store_below, store_below, hbelow]
    · omega
  discard := by rw [Store.discard, Store.below, List.drop_one]

/-- **Nested branches refine a stack of maps.** Whatever steps are taken from a store that holds a map,
each is answered with what the plain maps of the levels give, and the store reached has the levels that
the journal of its writes describes. -/
theorem takeAll_refines_journal (m : SortedMap Key Value) (steps : List Step) :
    (takeAll steps (ofEntries m)).1 = ((Journal.ofMap m).takeAll steps).1.map .ok ∧
      ((Journal.ofMap m).takeAll steps).2.Describes (takeAll steps (ofEntries m)).2 := by
  have hrun := Journal.store_takeAll steps (.ofMap m)
  have hstart : (Journal.ofMap m).store = ofEntries m := rfl
  rw [hstart] at hrun
  rw [hrun]
  exact ⟨rfl, Journal.describes_store _⟩

end Store

end ReferralForest

import ReferralForest.Forest.Parameters
import ReferralForest.Proofs.Forest.Moves
import ReferralForest.Proofs.Ledger.Commit

/-!
# Operations

What can be asked of a forest from outside, and the moves that each operation makes when it succeeds.
A program *leads* from a ledger to others if every successful run of it from a world that keeps the
one ends in a world that keeps one of the others; operations are put together from smaller programs,
and so are the paths they lead along.

## Main definitions

* `Operation`, `Operation.program` — the operations.
* `Operation.Makes`, `Operation.Allows` — the moves an operation may make, all together and each.
* `Program.Leads` — where a program leads.

## Main statements

* `leads_program` — a successful operation makes its moves and no others.
* `leads_beginBlock` — the beginning of a block handles just the due entries of the queue, in order.
-/

namespace ReferralForest

/-- **What can be asked of a forest.** -/
inductive Operation where
  /-- Adds a root with a tier. -/
  | addRoot (account : AccountId) (status : Status)
  /-- Adds a referral. -/
  | append (parent child : AccountId)
  /-- Adds a referral, the accounts being given by address. -/
  | register (request : Registration)
  /-- Builds a forest from a document. -/
  | importGenesis (g : Genesis)
  /-- Builds a forest from the parts of a document. -/
  | importParts (roots : List Member) (groups : List Group) (downgrades : List PendingDowngrade)
  /-- The stake of an account changes. -/
  | changeStake (account : AccountId) (delta : Int)
  /-- Makes an account active or inactive, and settles the accounts above it or does not. -/
  | setActive (account : AccountId) (active checked : Bool)
  /-- A block begins. -/
  | beginBlock
  /-- Stores parameters. -/
  | setParams (p : Params)
  /-- Stores parameters on behalf of a sender. -/
  | updateParams (request : ParamsUpdate)

namespace Operation

/-- The program of an operation at a time. -/
def program (host : Host) (now : Timestamp) : Operation → Program Unit
  | addRoot account status => Forest.addRoot host account status
  | append parent child => Forest.append host now parent child
  | register request => Forest.register host now request
  | importGenesis g => Forest.importGenesis host g
  | importParts roots groups downgrades => Forest.importParts host roots groups downgrades
  | changeStake account delta => Forest.changeStake host now account delta
  | setActive account active checked =>
    (Cascade.setActive (if checked then some now else none) account active).commit host
  | beginBlock => Forest.beginBlock host now
  | setParams p => Program.setParams p
  | updateParams request => Forest.updateParams host request

end Operation

/-- The moves of which the import of a document consists. -/
def Move.Imports : Move → Prop
  | .setParams _ | .addRoot _ _ | .addReferral _ _ _ | .reschedule _ _ => True
  | _ => False

/-- **The moves an operation may make** at a time. -/
def Operation.Makes (now : Timestamp) : Operation → List Move → Prop
  | .addRoot a s, ms => ms = [.addRoot a s]
  | .append p c, ms => ms = [.register now p c]
  | .register _, ms => ∃ p c, ms = [.register now p c]
  | .importGenesis _, ms | .importParts _ _ _, ms => ∀ m ∈ ms, m.Imports
  | .changeStake a delta, ms => ms = [.changeStake now a delta]
  | .setActive a active checked, ms =>
    ms = [.setActive (if checked then some now else none) a active]
  | .beginBlock, ms => ∃ due : List (Timestamp × AccountId), due.Pairwise (·.2 ≠ ·.2) ∧
    ms = due.map fun p => .lower now p.1 p.2
  | .setParams p, ms => ms = [.setParams p]
  | .updateParams request, ms => ms = [.setParams request.params]

/-- Which moves an operation may make at a time, whatever the others. -/
def Operation.Allows (now : Timestamp) : Operation → Move → Prop
  | .addRoot a s, m => m = .addRoot a s
  | .append p c, m => m = .register now p c
  | .register _, m => ∃ p c, m = .register now p c
  | .importGenesis _, m | .importParts _ _ _, m => m.Imports
  | .changeStake a delta, m => m = .changeStake now a delta
  | .setActive a active checked, m => m = .setActive (if checked then some now else none) a active
  | .beginBlock, m => ∃ t a, m = .lower now t a
  | .setParams p, m => m = .setParams p
  | .updateParams request, m => m = .setParams request.params

/-- The moves an operation makes are moves it may make. -/
theorem Operation.Makes.allows {now : Timestamp} {op : Operation} {ms : List Move}
    (h : op.Makes now ms) {m : Move} (hm : m ∈ ms) : op.Allows now m := by
  have single : ∀ {m' : Move}, ms = [m'] → m = m' := by
    rintro m' rfl
    exact List.mem_singleton.mp hm
  cases op with
  | register =>
      obtain ⟨p, c, h⟩ := h
      exact ⟨p, c, single h⟩
  | importGenesis => exact h m hm
  | importParts => exact h m hm
  | beginBlock =>
      obtain ⟨due, -, rfl⟩ := h
      obtain ⟨p, -, rfl⟩ := List.mem_map.mp hm
      exact ⟨p.1, p.2, rfl⟩
  | _ => exact single h

/-- **Where a program leads** from a ledger: every run that succeeds ends in a world that keeps a
ledger of which the condition holds. -/
def Program.Leads {α : Type} (p : Program α) (L : Ledger) (post : α → Ledger → Prop) : Prop :=
  ∀ (w w' : World) (a : α), w.Keeps L → w.run p = (.ok a, w') → ∃ L', w'.Keeps L' ∧ post a L'

namespace Program

variable {α β : Type} {L : Ledger} {post : α → Ledger → Prop}

/-- A program that is done leads where it is. -/
theorem Leads.done {a : α} (h : post a L) : Leads (.done a) L post := by
  intro w w' b hw hrun
  obtain ⟨hb, rfl⟩ := Prod.mk.inj hrun
  exact ⟨L, hw, Except.ok.inj hb ▸ h⟩

/-- Nothing need be known of where a program leads that fails. -/
theorem Leads.fail {e : Error} : Leads (.fail e) L post := by
  intro w w' b hw hrun
  simp at hrun

/-- One program after another. -/
theorem Leads.bind {p : Program β} {f : β → Program α} {mid : β → Ledger → Prop}
    (hp : p.Leads L mid) (hf : ∀ b L', mid b L' → (f b).Leads L' post) : (p >>= f).Leads L post := by
  intro w w' a hw hrun
  obtain ⟨b, w₁, hrunp, hrunf⟩ := World.run_bind_eq_ok_iff.mp hrun
  obtain ⟨L₁, hw₁, hmid⟩ := hp w w₁ b hw hrunp
  exact hf b L₁ hmid w₁ w' a hw₁ hrunf

/-- A program leads to whatever follows from where it leads. -/
theorem Leads.mono {p : Program α} {post' : α → Ledger → Prop} (hp : p.Leads L post)
    (h : ∀ a L', post a L' → post' a L') : p.Leads L post' := by
  intro w w' a hw hrun
  obtain ⟨L', hw', hpost⟩ := hp w w' a hw hrun
  exact ⟨L', hw', h a L' hpost⟩

/-- A program that only reads. -/
theorem Leads.of_run {p : Program α} {a : α} (h : ∀ w : World, w.Keeps L → w.run p = (.ok a, w)) :
    p.Leads L fun b L' => b = a ∧ L' = L := by
  intro w w' b hw hrun
  obtain ⟨hb, rfl⟩ := Prod.mk.inj ((h w hw).symm.trans hrun)
  exact ⟨L, hw, (Except.ok.inj hb).symm, rfl⟩

/-- Whether an account has a record is read off the ledger. -/
theorem leads_hasRecord (a : AccountId) :
    (hasRecord a).Leads L fun b L' => b = (L.records.get? a).isSome ∧ L' = L :=
  .of_run fun _ hw => hw.run_hasRecord a

/-- The number of keys is read without a change. -/
theorem leads_size : size.Leads L fun _ L' => L' = L := by
  intro w w' n hw hrun
  obtain ⟨-, rfl⟩ := Prod.mk.inj ((World.run_request w Call.size).symm.trans hrun)
  exact ⟨L, hw, rfl⟩

/-- A value at hand is had without a change. -/
theorem leads_ofExcept {x : Except Error α} :
    Leads (.ofExcept x) L fun a L' => x = .ok a ∧ L' = L := by
  intro w w' a hw hrun
  rw [World.run_ofExcept] at hrun
  obtain ⟨hx, rfl⟩ := Prod.mk.inj hrun
  exact ⟨L, hw, hx, rfl⟩

/-- **A cascade that is carried out** leads where it yields. -/
theorem leads_commit {host : Host} (quiet : host.Quiet) {c : Cascade α}
    (h : ∀ a D, Roster.Full L.records → c.Yields L.draft a D →
      Roster.Full D.records ∧ post a D.toLedger) : (c.commit host).Leads L post := by
  intro w w' a hw hrun
  have hfull := hw.stored.full
  obtain ⟨D, hyields, hw'⟩ := hw.of_run_commit quiet (fun D hD => (h a D hfull hD).1) hrun
  exact ⟨D.toLedger, hw', (h a D hfull hyields).2⟩

end Program

/-- **No account is in the queue twice**, where the queue is in step with the records. -/
theorem Ledger.InStep.pairwise_ne {L : Ledger} (inStep : L.InStep)
    {l : List (Timestamp × AccountId)} (sorted : l.Pairwise QueueBefore)
    (queued : ∀ p ∈ l, p ∈ L.queue) : l.Pairwise (·.2 ≠ ·.2) := by
  refine sorted.imp_of_mem ?_
  rintro ⟨s, a⟩ ⟨t, b⟩ hp hq hbefore rfl
  obtain rfl := inStep.eq_of_mem (queued _ hp) (queued _ hq)
  exact SortedMap.not_lt_self _ (queueBefore_iff.mp hbefore)

/-! ### Enrolling -/

/-- The moves by which an account enters as a document has it. -/
def Move.Enters : Move → Prop
  | .addRoot _ _ | .addReferral _ _ _ => True
  | _ => False

/-- Such moves are of an import. -/
theorem Move.Enters.imports {m : Move} (h : m.Enters) : m.Imports := by
  cases m <;> trivial

/-- No account is lost when one enters. -/
theorem Move.Takes.get?_eq_none_of_enters {m : Move} {L L' : Ledger} (h : m.Takes L L')
    (enters : m.Enters) {a : AccountId} (absent : L'.records.get? a = none) :
    L.records.get? a = none := by
  classical
  have put : ∀ b r, (L.put b r).records.get? a = none → L.records.get? a = none := by
    intro b r hput
    rw [Ledger.put, SortedMap.get?_insert] at hput
    split at hput
    · contradiction
    · exact hput
  cases h with
  | addRoot => exact put _ _ absent
  | addReferral => exact put _ _ absent
  | _ => exact enters.elim

/-- **Accounts are enrolled under their addresses**: all of them are new, and they enter as a document has
them. -/
structure Host.Enrolls (host : Host) (addresses : List String) (L L' : Ledger) : Prop where
  /-- Accounts enter, and nothing else happens. -/
  path : ∃ ms, Ledger.Path ms L L' ∧ ∀ m ∈ ms, m.Enters
  /-- Each address is that of a new account. -/
  fresh : ∀ s ∈ addresses, ∃ a, host.parseAddress s = .ok a ∧ L.records.get? a = none

namespace Host.Enrolls

variable {host : Host} {addresses more : List String} {L L₁ L' : Ledger}

/-- No addresses, no new accounts. -/
theorem refl : host.Enrolls [] L L := ⟨⟨[], .nil, by simp⟩, by simp⟩

/-- Accounts may be enrolled in two parts. -/
theorem trans (h : host.Enrolls addresses L L₁) (h' : host.Enrolls more L₁ L') :
    host.Enrolls (addresses ++ more) L L' := by
  obtain ⟨ms, hpath, hms⟩ := h.path
  obtain ⟨ms', hpath', hms'⟩ := h'.path
  refine ⟨⟨ms ++ ms', hpath.append hpath', List.forall_mem_append.mpr ⟨hms, hms'⟩⟩, ?_⟩
  refine List.forall_mem_append.mpr ⟨h.fresh, fun s hs => ?_⟩
  obtain ⟨a, hparse, habsent⟩ := h'.fresh s hs
  exact ⟨a, hparse, hpath.invariant (I := fun M => M.records.get? a = none → L.records.get? a = none)
    (fun m hm _ _ htakes hM habsent => hM (htakes.get?_eq_none_of_enters (hms m hm) habsent)) id habsent⟩

/-- An account enters before others. -/
theorem cons {s : String} {a : AccountId} {m : Move} (h : host.Enrolls addresses L₁ L')
    (parse : host.parseAddress s = .ok a) (fresh : L.records.get? a = none) (takes : m.Takes L L₁)
    (enters : m.Enters) : host.Enrolls (s :: addresses) L L' := by
  have hfirst : host.Enrolls [s] L L₁ :=
    ⟨⟨[m], .single takes, by simpa using enters⟩, by simpa using ⟨a, parse, fresh⟩⟩
  exact hfirst.trans h

end Host.Enrolls

/-! ### Single operations -/

/-- The check before an account is placed, and its refusals. -/
theorem World.Keeps.run_checkPlacement {w : World} {L : Ledger} (h : w.Keeps L) (p c : AccountId) :
    w.run (Forest.checkPlacement p c) =
      (if (L.records.get? c).isSome then .error (.alreadyExists c)
        else if (L.records.get? p).isSome then .ok () else .error (.referrerNotFound p), w) := by
  rw [Forest.checkPlacement, run_bind_of_ok (h.run_hasRecord c)]
  cases (L.records.get? c).isSome with
  | true => rfl
  | false =>
      refine (run_bind_of_ok (h.run_hasRecord p) _).trans ?_
      cases (L.records.get? p).isSome <;> rfl

namespace Forest

open Program

variable {L : Ledger} {host : Host} {now : Timestamp}

/-- The check before an account is placed. -/
theorem leads_checkPlacement (p c : AccountId) :
    (checkPlacement p c).Leads L fun _ L' =>
      L' = L ∧ L.records.get? c = none ∧ L.records.get? p ≠ none := by
  refine Leads.bind (leads_hasRecord c) ?_
  rintro taken L ⟨rfl, rfl⟩
  cases hc : L.records.get? c with
  | some r => exact Leads.fail
  | none =>
      refine Leads.bind (leads_hasRecord p) ?_
      rintro placed L ⟨rfl, rfl⟩
      cases hp : L.records.get? p with
      | none => exact Leads.fail
      | some r => exact Leads.done ⟨rfl, rfl, by simp⟩

/-- Adding a root. -/
theorem leads_addRoot (quiet : host.Quiet) (a : AccountId) (s : Status) :
    (addRoot host a s).Leads L fun _ L' => (Move.addRoot a s).Takes L L' := by
  refine Leads.bind (leads_hasRecord a) ?_
  rintro taken L ⟨rfl, rfl⟩
  cases ha : L.records.get? a with
  | some r => exact Leads.fail
  | none =>
      refine leads_commit quiet fun _ D full h => ?_
      rw [Cascade.yields_put] at h
      subst h
      have htakes : (Move.addRoot a s).Takes L (L.put a (.fresh none s)) := .addRoot ha
      exact ⟨htakes.full full, htakes⟩

/-- Adding a referral. -/
theorem leads_append (quiet : host.Quiet) (p c : AccountId) :
    (append host now p c).Leads L fun _ L' => (Move.register now p c).Takes L L' := by
  refine Leads.bind (leads_checkPlacement p c) ?_
  rintro _ L ⟨rfl, hc, hp⟩
  refine leads_commit quiet fun _ D full h => ?_
  have htakes := Cascade.takes_of_register full hc hp h
  exact ⟨htakes.full full, htakes⟩

/-- Adding a referral as requested. -/
theorem leads_register (quiet : host.Quiet) (request : Registration) :
    (register host now request).Leads L fun _ L' =>
      ∃ p c, host.parseAddress request.referrer = .ok p ∧
        host.parseAddress request.referral = .ok c ∧ (Move.register now p c).Takes L L' := by
  rw [register]
  dsimp only
  split
  · exact Leads.fail
  · refine Leads.bind leads_ofExcept ?_
    rintro p L ⟨hp, rfl⟩
    refine Leads.bind leads_ofExcept ?_
    rintro c L ⟨hc, rfl⟩
    refine Leads.bind (leads_hasRecord p) ?_
    rintro placed L ⟨rfl, rfl⟩
    split
    · exact Leads.fail
    · exact (leads_append quiet p c).mono fun _ _ h => ⟨p, c, hp, hc, h⟩

/-- A stake change. -/
theorem leads_changeStake (quiet : host.Quiet) (a : AccountId) (delta : Int) :
    (changeStake host now a delta).Leads L fun _ L' => (Move.changeStake now a delta).Takes L L' := by
  refine Leads.bind leads_size ?_
  rintro bound L rfl
  refine leads_commit quiet fun _ D full h => ?_
  have htakes : (Move.changeStake now a delta).Takes L D.toLedger := .changeStake h
  exact ⟨htakes.full full, htakes⟩

/-- Making an account active or inactive. -/
theorem leads_setActive (quiet : host.Quiet) (checkAt : Option Timestamp) (a : AccountId)
    (active : Bool) :
    ((Cascade.setActive checkAt a active).commit host).Leads L fun _ L' =>
      (Move.setActive checkAt a active).Takes L L' := by
  refine leads_commit quiet fun _ D full h => ?_
  have htakes : (Move.setActive checkAt a active).Takes L D.toLedger := .setActive h
  exact ⟨htakes.full full, htakes⟩

/-- Storing parameters. -/
theorem leads_setParams (p : Params) :
    (Program.setParams p).Leads L fun _ L' => (Move.setParams p).Takes L L' := by
  intro w w' _ hw hrun
  obtain ⟨hvalid, hw'⟩ := hw.of_run_setParams hrun
  exact ⟨L.setParams p, hw', .setParams hvalid⟩

/-! ### Documents -/

/-- Reading in roots enrolls them. -/
theorem leads_importRoots (quiet : host.Quiet) (l : List Member) :
    (importRoots host l).Leads L fun _ L' => host.Enrolls (l.map Member.address) L L' := by
  induction l generalizing L with
  | nil => exact Leads.done .refl
  | cons m rest ih =>
      refine Leads.bind leads_ofExcept ?_
      rintro a L ⟨hparse, rfl⟩
      refine Leads.bind (leads_addRoot quiet a m.status) fun _ L₁ htakes => ?_
      refine ih.mono fun _ _ h => ?_
      cases htakes with
      | addRoot fresh => exact h.cons hparse fresh (.addRoot fresh) trivial

/-- Reading in a referral is the move that adds it. -/
theorem leads_importReferral (quiet : host.Quiet) (p c : AccountId) (s : Status) :
    (importReferral host p c s).Leads L fun _ L' => (Move.addReferral p c s).Takes L L' := by
  refine Leads.bind (leads_checkPlacement p c) ?_
  rintro _ L ⟨rfl, hc, hp⟩
  refine leads_commit quiet fun _ D full h => ?_
  simp only [Cascade.yields_bind, Cascade.yields_put, Cascade.yields_relate] at h
  obtain ⟨_, _, rfl, rfl⟩ := h
  have htakes : (Move.addReferral p c s).Takes L ((L.put c (.fresh (some p) s)).relate p c) :=
    .addReferral hc hp
  exact ⟨htakes.full full, htakes⟩

/-- Reading in the referrals of an account enrolls them. -/
theorem leads_importReferrals (quiet : host.Quiet) (p : AccountId) (l : List Member) :
    (importReferrals host p l).Leads L fun _ L' => host.Enrolls (l.map Member.address) L L' := by
  induction l generalizing L with
  | nil => exact Leads.done .refl
  | cons m rest ih =>
      refine Leads.bind leads_ofExcept ?_
      rintro a L ⟨hparse, rfl⟩
      refine Leads.bind (leads_importReferral quiet p a m.status) fun _ L₁ htakes => ?_
      refine ih.mono fun _ _ h => ?_
      cases htakes with
      | addReferral fresh placed => exact h.cons hparse fresh (.addReferral fresh placed) trivial

/-- Reading in groups enrolls all their referrals. -/
theorem leads_importGroups (quiet : host.Quiet) (l : List Group) :
    (importGroups host l).Leads L fun _ L' =>
      host.Enrolls (l.flatMap fun g => g.referrals.map Member.address) L L' := by
  induction l generalizing L with
  | nil => exact Leads.done .refl
  | cons g rest ih =>
      rw [importGroups]
      dsimp only
      split
      · exact Leads.fail
      · refine Leads.bind leads_ofExcept ?_
        rintro p L ⟨-, rfl⟩
        refine Leads.bind (leads_importReferrals quiet p g.referrals) fun _ L₁ h₁ => ?_
        exact ih.mono fun _ _ h => List.flatMap_cons ▸ h₁.trans h

/-- Building a forest from the parts of a document: the accounts enter, and then downgrades are
scheduled. -/
theorem leads_importParts (quiet : host.Quiet) (roots : List Member) (groups : List Group)
    (downgrades : List PendingDowngrade) :
    (importParts host roots groups downgrades).Leads L fun _ L' => ∃ L₁,
      host.Enrolls (roots.map Member.address ++
        groups.flatMap fun g => g.referrals.map Member.address) L L₁ ∧
      ∃ ms, Ledger.Path ms L₁ L' ∧ ∀ m ∈ ms, ∃ d ∈ downgrades, ∃ a,
        host.parseAddress d.account = .ok a ∧ m = .reschedule d.time a := by
  refine Leads.bind (leads_importRoots quiet roots) fun _ L₁ h₁ => ?_
  refine Leads.bind (leads_importGroups quiet groups) fun _ L₂ h₂ => ?_
  refine leads_commit quiet fun _ D full h => ?_
  obtain ⟨ms, hpath, hms⟩ := Cascade.path_of_importDowngrades (D := L₂.draft) full h
  have hfull := hpath.invariant (I := fun M => Roster.Full M.records)
    (fun m _ _ _ htakes hM => htakes.full hM) full
  exact ⟨hfull, L₂, h₁.trans h₂, ms, hpath, hms⟩

/-- The condition that a path of importing moves was gone. -/
def Imported (L L' : Ledger) : Prop := ∃ ms, Ledger.Path ms L L' ∧ ∀ m ∈ ms, m.Imports

/-- Parts of a document are read in by importing moves. -/
theorem imported_importParts (quiet : host.Quiet) (roots : List Member) (groups : List Group)
    (downgrades : List PendingDowngrade) :
    (importParts host roots groups downgrades).Leads L fun _ L' => Imported L L' := by
  refine (leads_importParts quiet roots groups downgrades).mono ?_
  rintro _ L' ⟨L₁, ⟨⟨ms, hpath, hms⟩, -⟩, ms', hpath', hms'⟩
  refine ⟨ms ++ ms', hpath.append hpath', List.forall_mem_append.mpr ⟨fun m hm => ?_, fun m hm => ?_⟩⟩
  · exact (hms m hm).imports
  · obtain ⟨d, -, a, -, rfl⟩ := hms' m hm
    trivial

/-- Building a forest from a document. -/
theorem leads_importGenesis (quiet : host.Quiet) (g : Genesis) :
    (importGenesis host g).Leads L fun _ L' => Imported L L' := by
  refine Leads.bind leads_ofExcept ?_
  rintro _ L ⟨-, rfl⟩
  refine Leads.bind (leads_setParams g.params) fun _ L₁ htakes => ?_
  refine (imported_importParts quiet _ _ _).mono ?_
  rintro _ _ ⟨ms, hpath, hms⟩
  exact ⟨_, .cons htakes hpath, List.forall_mem_cons.mpr ⟨trivial, hms⟩⟩

/-! ### The beginning of a block -/

/-- Handling an entry of the queue leaves the entries of other accounts. -/
theorem mem_queue_of_lower {L' : Ledger} {t : Timestamp} {a : AccountId}
    (h : (Move.lower now t a).Takes L L') {b : AccountId} (hb : b ≠ a) (u : Timestamp) :
    (u, b) ∈ L'.queue ↔ (u, b) ∈ L.queue := by
  cases h with
  | lower found scheduled due settles =>
      exact (settles.mem_queue_of_ne hb u).trans (and_iff_left fun e => hb (Prod.mk.inj e).2)

/-- Handling one due entry leaves those of other accounts in the queue, as due as before. -/
theorem queued_of_lower {L' : Ledger} {t : Timestamp} {a : AccountId} {rest : List (Timestamp × AccountId)}
    (h : (Move.lower now t a).Takes L L') (others : ∀ p ∈ rest, a ≠ p.2)
    (due : ∀ p ∈ (t, a) :: rest, p ∈ L.queue ∧ p.1 ≤ now) : ∀ p ∈ rest, p ∈ L'.queue ∧ p.1 ≤ now := by
  rintro ⟨u, b⟩ hp
  obtain ⟨hu, hle⟩ := due (u, b) (List.mem_cons_of_mem _ hp)
  exact ⟨(mem_queue_of_lower h (others _ hp).symm u).mpr hu, hle⟩

/-- Handling entries of the queue, each of another account and due. -/
theorem leads_drainEach (quiet : host.Quiet) {l : List (Timestamp × AccountId)}
    (full : Roster.Full L.records) (inStep : L.InStep) (due : ∀ p ∈ l, p ∈ L.queue ∧ p.1 ≤ now)
    (distinct : l.Pairwise (·.2 ≠ ·.2)) :
    (drainEach host now (l.map Ledger.queueEntry)).Leads L fun _ L' =>
      Ledger.Path (l.map fun p => .lower now p.1 p.2) L L' := by
  induction l generalizing L with
  | nil => exact Leads.done .nil
  | cons p rest ih =>
      obtain ⟨t, a⟩ := p
      obtain ⟨hne, hdistinct⟩ := List.pairwise_cons.mp distinct
      obtain ⟨hmem, hdue⟩ := due (t, a) List.mem_cons_self
      rw [List.map_cons, List.map_cons]
      have hhandle : (do Program.delete (Slot.downgrade t a).key
                         (Cascade.downgrade now a).commit host : Program Unit).Leads L
          fun _ L' => (Move.lower now t a).Takes L L' := by
        have hdelete : (Program.delete (Slot.downgrade t a).key).Leads L
            fun _ L' => L' = L.dequeue t a := by
          intro w w' _ hw hrun
          obtain ⟨w₁, hrun₁, hkeeps, -, -⟩ := hw.run_unschedule t a
          obtain ⟨-, rfl⟩ := Prod.mk.inj (hrun.symm.trans hrun₁)
          exact ⟨_, hkeeps, rfl⟩
        refine Leads.bind hdelete ?_
        rintro _ _ rfl
        refine leads_commit quiet fun _ D _ h => ?_
        have htakes := Cascade.takes_of_downgrade full inStep hmem hdue h
        exact ⟨htakes.full full, htakes⟩
      have hrest : ∀ L₁, (Move.lower now t a).Takes L L₁ →
          (drainEach host now (rest.map Ledger.queueEntry)).Leads L₁ fun _ L' =>
            Ledger.Path (.lower now t a :: rest.map fun p => .lower now p.1 p.2) L L' := by
        intro L₁ htakes
        have hqueued := queued_of_lower htakes hne due
        exact (ih (htakes.full full) (htakes.inStep full inStep) hqueued hdistinct).mono
          fun _ _ hpath => .cons htakes hpath
      rw [drainEach]
      dsimp only [Ledger.queueEntry]
      rw [Slot.parseDowngrade_key]
      refine Leads.bind leads_ofExcept ?_
      rintro _ L ⟨hok, rfl⟩
      obtain rfl := Except.ok.inj hok
      have hall := Leads.bind hhandle fun _ L₁ htakes => hrest L₁ htakes
      rwa [bind_assoc] at hall

/-- Listing the due entries of the queue. -/
theorem leads_due : (Program.range (Slot.due now)).Leads L fun entries L' =>
    L' = L ∧ ∃ due : List (Timestamp × AccountId), due.Pairwise QueueBefore ∧
      (∀ t a, (t, a) ∈ due ↔ (t, a) ∈ L.queue ∧ t ≤ now) ∧
      entries = due.map Ledger.queueEntry := by
  intro w w' entries hw hrun
  have covers : ∀ slot : Slot, (Slot.due now).contains slot.key = true ↔
      ∃ t a, slot = .downgrade t a ∧ t ≤ now := fun slot => Slot.due_contains_key_iff
  obtain ⟨l, hsorted, hmem, hl⟩ := hw.stored.exists_queue_entries covers
  obtain ⟨hentries, rfl⟩ := Prod.mk.inj ((hw.run_range (Slot.due now)).symm.trans hrun)
  exact ⟨L, hw, rfl, l, hsorted, hmem, (Except.ok.inj hentries).symm.trans hl⟩

/-- **Draining the queue** handles just the due entries, in order, and no account twice. -/
theorem leads_drain (quiet : host.Quiet) (full : Roster.Full L.records) (inStep : L.InStep) :
    (drain host now).Leads L fun _ L' =>
      ∃ due : List (Timestamp × AccountId), due.Pairwise QueueBefore ∧ due.Pairwise (·.2 ≠ ·.2) ∧
        (∀ t a, (t, a) ∈ due ↔ (t, a) ∈ L.queue ∧ t ≤ now) ∧
        Ledger.Path (due.map fun p => .lower now p.1 p.2) L L' := by
  refine Leads.bind leads_due ?_
  rintro _ L ⟨rfl, due, hsorted, hmem, rfl⟩
  have hdue : ∀ p ∈ due, p ∈ L.queue ∧ p.1 ≤ now := fun p hp => (hmem p.1 p.2).mp hp
  have hdistinct := inStep.pairwise_ne hsorted fun p hp => (hdue p hp).1
  refine Leads.bind (leads_drainEach quiet full inStep hdue hdistinct) fun _ L' hpath => ?_
  exact Leads.done ⟨due, hsorted, hdistinct, hmem, hpath⟩

/-- **The beginning of a block** drains the queue. -/
theorem leads_beginBlock (quiet : host.Quiet) (full : Roster.Full L.records) (inStep : L.InStep) :
    (beginBlock host now).Leads L fun _ L' =>
      ∃ due : List (Timestamp × AccountId), due.Pairwise QueueBefore ∧ due.Pairwise (·.2 ≠ ·.2) ∧
        (∀ t a, (t, a) ∈ due ↔ (t, a) ∈ L.queue ∧ t ≤ now) ∧
        Ledger.Path (due.map fun p => .lower now p.1 p.2) L L' := by
  have hdiscard : beginBlock host now = drain host now >>= fun _ => pure () := by
    rw [beginBlock, Functor.discard, map_const, Function.comp, map_eq_pure_bind]
  rw [hdiscard]
  exact Leads.bind (leads_drain quiet full inStep) fun _ L' h => Leads.done h

end Forest

/-- **A successful operation makes its moves** and no others. -/
theorem Operation.leads_program {host : Host} (quiet : host.Quiet) {L : Ledger}
    (full : Roster.Full L.records) (inStep : L.InStep) (op : Operation) (now : Timestamp) :
    (op.program host now).Leads L fun _ L' => ∃ ms, op.Makes now ms ∧ Ledger.Path ms L L' := by
  cases op with
  | addRoot a s => exact (Forest.leads_addRoot quiet a s).mono fun _ _ h => ⟨_, rfl, .single h⟩
  | append p c => exact (Forest.leads_append quiet p c).mono fun _ _ h => ⟨_, rfl, .single h⟩
  | register request =>
      refine (Forest.leads_register quiet request).mono ?_
      rintro _ _ ⟨p, c, -, -, h⟩
      exact ⟨_, ⟨p, c, rfl⟩, .single h⟩
  | importGenesis g =>
      refine (Forest.leads_importGenesis quiet g).mono ?_
      rintro _ _ ⟨ms, hpath, hms⟩
      exact ⟨ms, hms, hpath⟩
  | importParts roots groups downgrades =>
      refine (Forest.imported_importParts quiet roots groups downgrades).mono ?_
      rintro _ _ ⟨ms, hpath, hms⟩
      exact ⟨ms, hms, hpath⟩
  | changeStake a delta =>
      exact (Forest.leads_changeStake quiet a delta).mono fun _ _ h => ⟨_, rfl, .single h⟩
  | setActive a active checked =>
      exact (Forest.leads_setActive quiet _ a active).mono fun _ _ h => ⟨_, rfl, .single h⟩
  | beginBlock =>
      refine (Forest.leads_beginBlock quiet full inStep).mono ?_
      rintro _ _ ⟨due, -, hdistinct, -, hpath⟩
      exact ⟨_, ⟨due, hdistinct, rfl⟩, hpath⟩
  | setParams p => exact (Forest.leads_setParams p).mono fun _ _ h => ⟨_, rfl, .single h⟩
  | updateParams request =>
      rw [program, Forest.updateParams]
      split
      · exact (Forest.leads_setParams request.params).mono fun _ _ h => ⟨_, rfl, .single h⟩
      · exact Program.Leads.fail

end ReferralForest

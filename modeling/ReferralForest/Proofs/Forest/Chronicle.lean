import ReferralForest.Proofs.Cascade.Chronicle
import ReferralForest.Proofs.Forest.Inert

/-!
# The Chronicle of a Forest

Whoever has read the notices of all operations so far knows the tier of every account and when the account
will lose it; and each operation that succeeds tells him what he needs to know on, no more and no less.
New accounts are not announced by a notice, so the reader is asked only about those he knew before.

Listeners may tell notices of their own. The notices of the operation itself are those it tells where
nobody listens: a host whose listeners write nothing does not make an operation end otherwise, if it
succeeds. Where no listener tells a notice they are all notices there are.

## Main definitions

* `Host.Recounts` — what a program tells of itself from a given ledger, whoever listens.
* `Turn.Chronicled` — the notices of a turn follow the tiers and schedules of all accounts there were.

## Main statements

* `Operation.recounts_program` — what each operation tells from a regular ledger.
* `Forest.chronicled_after` — after every history, every successful turn is chronicled.
-/

namespace ReferralForest

open Roster

/-- **The notices follow the records**: a reader whose board shows the ones shows the others after
reading, for all accounts there were. -/
def Roster.Followed (m m' : Roster) (ns : List Notice) : Prop :=
  ∃ b, (board m).follow? ns = some b ∧ ∀ a, m.get? a ≠ none → b a = board m' a

/-- Notices that follow all accounts follow those there were. -/
theorem Roster.Followed.of_eq {m m' : Roster} {ns : List Notice}
    (h : (board m).follow? ns = some (board m')) : Followed m m' ns :=
  ⟨_, h, fun _ _ => rfl⟩

/-- Nothing need be told of a new account. -/
theorem Roster.Followed.insert {m : Roster} {a : AccountId} {r : Record} (fresh : m.get? a = none) :
    Followed m (m.insert a r) [] := by
  refine ⟨_, Board.follow?_nil _, fun b hb => ?_⟩
  have hne : b ≠ a := fun e => hb (e ▸ fresh)
  rw [board, board, m.get?_insert_of_ne r hne]

/-! ### Programs heard by nobody -/

/-- **What a program recounts** from a ledger. The first program is heard by the listeners of a host, the
second one is the same program heard by nobody. If the first succeeds, so does the second, from every
world that keeps the ledger; they leave the same ledger, and the second tells the notices that the first
tells of itself. -/
def Host.Recounts {α : Type} (host : Host) (p q : Program α) (L : Ledger)
    (post : α → Ledger → List Notice → Prop) : Prop :=
  ∀ (w w' : World) (a : α), w.Keeps L → w.run p = (.ok a, w') → ∃ L' ns, w'.Keeps L' ∧ post a L' ns ∧
    (host.Discreet → w'.notices = w.notices ++ ns) ∧
    ∀ v : World, v.Keeps L →
      ∃ v', v.run q = (.ok a, v') ∧ v'.Keeps L' ∧ v'.notices = v.notices ++ ns

namespace Host.Recounts

variable {α β : Type} {host : Host} {p q : Program α} {L L' : Ledger} {a : α}
  {post : α → Ledger → List Notice → Prop}

/-- A program that fails. -/
theorem of_error (h : ∀ w : World, w.Keeps L → ∃ e, (w.run p).1 = .error e) :
    host.Recounts p q L post := by
  intro w w' a hw hrun
  obtain ⟨e, he⟩ := h w hw
  rw [hrun] at he
  contradiction

/-- A program that fails need not recount anything. -/
theorem fail {e : Error} : host.Recounts (.fail e) q L post :=
  of_error fun _ _ => ⟨e, rfl⟩

/-- A program that nobody hears anyway and that makes one change of the ledger. -/
theorem of_becomes (h : ∀ w : World, w.Keeps L → ∃ w', w.run p = (.ok a, w') ∧ w.Becomes L' w') :
    host.Recounts p p L fun b M ns => (b = a ∧ M = L') ∧ ns = [] := by
  intro w w' b hw hrun
  have hnotices : ∀ {w w' : World}, w.Becomes L' w' → w'.notices = w.notices ++ [] := fun hbecomes =>
    World.notices_of_log_eq_map (hbecomes.2.2.trans (List.append_nil _).symm)
  obtain ⟨w₁, hrun₁, hbecomes⟩ := h w hw
  obtain ⟨hb, rfl⟩ := Prod.mk.inj (hrun.symm.trans hrun₁)
  obtain rfl := Except.ok.inj hb
  refine ⟨L', [], hbecomes.1, ⟨⟨rfl, rfl⟩, rfl⟩, fun _ => hnotices hbecomes, fun v hv => ?_⟩
  obtain ⟨v', hrun', hbecomes'⟩ := h v hv
  exact ⟨v', hrun', hbecomes'.1, hnotices hbecomes'⟩

/-- A program that only reads. -/
theorem of_run (h : ∀ w : World, w.Keeps L → w.run p = (.ok a, w)) :
    host.Recounts p p L fun b M ns => (b = a ∧ M = L) ∧ ns = [] :=
  of_becomes fun w hw => ⟨w, h w hw, hw, rfl, rfl⟩

/-- A value at hand is recounted without a notice. -/
theorem ofExcept {x : Except Error α} :
    host.Recounts (.ofExcept x) (.ofExcept x) L fun a M ns => (x = .ok a ∧ M = L) ∧ ns = [] := by
  cases x with
  | error e => exact fail
  | ok a =>
      intro w w' b hw hrun
      obtain ⟨hb, rfl⟩ := Prod.mk.inj hrun
      refine ⟨L, [], hw, ⟨⟨hb, rfl⟩, rfl⟩, fun _ => (List.append_nil _).symm, fun v hv => ?_⟩
      exact ⟨v, Prod.ext hb rfl, hv, (List.append_nil _).symm⟩

/-- What follows from what is recounted is recounted. -/
theorem mono {post' : α → Ledger → List Notice → Prop} (hp : host.Recounts p q L post)
    (h : ∀ a M ns, post a M ns → post' a M ns) : host.Recounts p q L post' := by
  intro w w' a hw hrun
  obtain ⟨M, ns, hw', hpost, hrest⟩ := hp w w' a hw hrun
  exact ⟨M, ns, hw', h a M ns hpost, hrest⟩

/-- One program after another. -/
theorem bind {p q : Program β} {f g : β → Program α} {mid : β → Ledger → List Notice → Prop}
    (hp : host.Recounts p q L mid) (hf : ∀ b M ns, mid b M ns →
      host.Recounts (f b) (g b) M fun a M' ms => post a M' (ns ++ ms)) :
    host.Recounts (p >>= f) (q >>= g) L post := by
  intro w w' a hw hrun
  obtain ⟨b, w₁, hfirst, hrest⟩ := World.run_bind_eq_ok_iff.mp hrun
  obtain ⟨M, ns, hw₁, hmid, hdiscreet, hdeaf⟩ := hp w w₁ b hw hfirst
  obtain ⟨M', ms, hw', hpost, hdiscreet', hdeaf'⟩ := hf b M ns hmid w₁ w' a hw₁ hrest
  refine ⟨M', ns ++ ms, hw', hpost, fun discreet => ?_, fun v hv => ?_⟩
  · rw [hdiscreet' discreet, hdiscreet discreet, List.append_assoc]
  · obtain ⟨v₁, hrun₁, hv₁, hns⟩ := hdeaf v hv
    obtain ⟨v', hrun', hv', hms⟩ := hdeaf' v₁ hv₁
    refine ⟨v', (World.run_bind_of_ok hrun₁ g).trans hrun', hv', ?_⟩
    rw [hms, hns, List.append_assoc]

/-- One program after another of which nothing is told. -/
theorem bind_silent {p q : Program β} {f g : β → Program α} {mid : β → Ledger → Prop}
    (hp : host.Recounts p q L fun b M ns => mid b M ∧ ns = [])
    (hf : ∀ b M, mid b M → host.Recounts (f b) (g b) M post) :
    host.Recounts (p >>= f) (q >>= g) L post := by
  refine hp.bind ?_
  rintro b M _ ⟨hmid, rfl⟩
  exact hf b M hmid

/-- **A cascade that is carried out** recounts the notices of what it yields. -/
theorem commit (quiet : host.Quiet) {c : Cascade α}
    (h : ∀ a D, Full L.records → c.Yields L.draft a D →
      Full D.records ∧ post a D.toLedger D.notices) :
    host.Recounts (c.commit host) (c.commit host.deaf) L post := by
  intro w w' a hw hrun
  have hfull := hw.stored.full
  obtain ⟨D, hyields, hw'⟩ := hw.of_run_commit quiet (fun D hD => (h a D hfull hD).1) hrun
  obtain ⟨hfull', hpost⟩ := h a D hfull hyields
  refine ⟨D.toLedger, D.notices, hw', hpost, fun discreet => ?_, fun v hv => ?_⟩
  · obtain ⟨w₁, -, hlog, hrun₁⟩ := hw.exists_run_commit hyields hfull'
    obtain ⟨_, w₂, hannounce, hdone⟩ := World.run_bind_eq_ok_iff.mp ((hrun₁ host).symm.trans hrun)
    obtain ⟨-, rfl⟩ := Prod.mk.inj hdone
    have hsame := discreet.notices_run_announceAll w₁ D.callbacks.toList
    rw [hannounce] at hsame
    exact hsame.trans (World.notices_of_log_eq_map hlog)
  · obtain ⟨v', hrun', hv', hlog⟩ := hv.run_commit_deaf hyields hfull' host
    exact ⟨v', hrun', hv', World.notices_of_log_eq_map hlog⟩

end Host.Recounts

/-! ### Operations -/

namespace Forest

open Host

variable {L : Ledger} {host : Host} {now : Timestamp}

/-- What the operations recount: the notices follow the records. -/
abbrev recounted (L : Ledger) : Unit → Ledger → List Notice → Prop :=
  fun _ L' ns => Followed L.records L'.records ns

/-- Asking for a record. -/
theorem recounts_hasRecord (a : AccountId) :
    host.Recounts (Program.hasRecord a) (Program.hasRecord a) L fun b M ns =>
      (b = (L.records.get? a).isSome ∧ M = L) ∧ ns = [] :=
  .of_run fun _ hw => hw.run_hasRecord a

/-- The store has as many keys wherever the ledger is kept. -/
theorem recounts_size : host.Recounts Program.size Program.size L fun _ M ns => M = L ∧ ns = [] := by
  intro w w' n hw hrun
  obtain ⟨hn, rfl⟩ := Prod.mk.inj ((World.run_request w Call.size).symm.trans hrun)
  refine ⟨L, [], hw, ⟨rfl, rfl⟩, fun _ => (List.append_nil _).symm, fun v hv => ?_⟩
  have hsize : v.store.size = w.store.size := congrArg SortedMap.size (hv.stored.eq_map hw.stored)
  refine ⟨v, (World.run_request v Call.size).trans ?_, hv, (List.append_nil _).symm⟩
  rw [← hn, ← hsize]
  rfl

/-- The check before an account is placed. -/
theorem recounts_checkPlacement (p c : AccountId) :
    host.Recounts (checkPlacement p c) (checkPlacement p c) L fun _ M ns =>
      (M = L ∧ L.records.get? c = none ∧ L.records.get? p ≠ none) ∧ ns = [] := by
  cases hc : L.records.get? c with
  | some r =>
      refine .of_error fun w hw => ⟨.alreadyExists c, ?_⟩
      rw [hw.run_checkPlacement, hc]
      rfl
  | none =>
      cases hp : L.records.get? p with
      | none =>
          refine .of_error fun w hw => ⟨.referrerNotFound p, ?_⟩
          rw [hw.run_checkPlacement, hc, hp]
          rfl
      | some r =>
          have hrun : ∀ w : World, w.Keeps L → w.run (checkPlacement p c) = (.ok (), w) := by
            intro w hw
            rw [hw.run_checkPlacement, hc, hp]
            rfl
          exact (Recounts.of_run hrun).mono fun _ _ _ h => ⟨⟨h.1.2, rfl, by simp⟩, h.2⟩

/-- Adding a root. -/
theorem recounts_addRoot (quiet : host.Quiet) (a : AccountId) (s : Status) :
    host.Recounts (addRoot host a s) (addRoot host.deaf a s) L (recounted L) := by
  refine .bind_silent (recounts_hasRecord a) ?_
  rintro taken L ⟨rfl, rfl⟩
  cases ha : L.records.get? a with
  | some r => exact .fail
  | none =>
      refine .commit quiet fun _ D full h => ?_
      obtain rfl := Cascade.yields_put.mp h
      exact ⟨full.insert (Record.length_fresh _ _), .insert ha⟩

/-- Adding a referral. Nobody changes his tier or his schedule. -/
theorem recounts_append (quiet : host.Quiet) (climbed : Roster.Climbed L.records) (p c : AccountId) :
    host.Recounts (append host now p c) (append host.deaf now p c) L (recounted L) := by
  refine .bind_silent (recounts_checkPlacement p c) ?_
  rintro _ L ⟨rfl, hc, hp⟩
  refine .commit quiet fun _ D full h => ?_
  obtain ⟨D', h', hmurmurs⟩ := Cascade.exists_yields_register (D := L.draft) full climbed now p c
  obtain ⟨-, rfl⟩ := Prod.mk.inj (h.symm.trans h')
  have hrecords : D.records = L.records.insert c (.fresh (some p) .new) :=
    congrArg Ledger.records hmurmurs.ledger
  have hnotices : D.notices = [] := hmurmurs.notices
  rw [recounted, hnotices, hrecords]
  exact ⟨full.insert (Record.length_fresh _ _), .insert hc⟩

/-- Adding a referral as requested. -/
theorem recounts_register (quiet : host.Quiet) (climbed : Roster.Climbed L.records)
    (request : Registration) :
    host.Recounts (register host now request) (register host.deaf now request) L (recounted L) := by
  rw [register, register]
  dsimp only
  split
  · exact .fail
  · refine .bind_silent Recounts.ofExcept ?_
    rintro p L ⟨-, rfl⟩
    refine .bind_silent Recounts.ofExcept ?_
    rintro c L ⟨-, rfl⟩
    refine .bind_silent (recounts_hasRecord p) ?_
    rintro placed L ⟨rfl, rfl⟩
    split
    · exact .fail
    · exact recounts_append quiet climbed p c

/-- A stake change. -/
theorem recounts_changeStake (quiet : host.Quiet) (a : AccountId) (delta : Int) :
    host.Recounts (changeStake host now a delta) (changeStake host.deaf now a delta) L
      (recounted L) := by
  refine .bind_silent recounts_size ?_
  rintro bound L rfl
  refine .commit quiet fun _ D full h => ?_
  obtain ⟨ns, hns, hfollow⟩ := Cascade.chronicles_of_yields_changeStake h
  obtain rfl : D.notices = ns := hns
  exact ⟨(Cascade.walk_changeStake full h).full full, .of_eq hfollow⟩

/-- Storing parameters. -/
theorem recounts_setParams (p : Params) :
    host.Recounts (Program.setParams p) (Program.setParams p) L (recounted L) := by
  refine .bind_silent Recounts.ofExcept ?_
  rintro _ L ⟨-, rfl⟩
  have hbecomes : ∀ w : World, w.Keeps L → ∃ w', w.run (Program.set Slot.params.key p.encode) =
      (.ok (), w') ∧ w.Becomes (L.setParams p) w' := fun w hw =>
    hw.run_write_becomes (hw.stored.put_params p)
  refine (Recounts.of_becomes hbecomes).mono ?_
  rintro _ _ _ ⟨⟨-, rfl⟩, rfl⟩
  exact .of_eq rfl

/-! ### The beginning of a block -/

/-- A tier whose requirement a record fails is not the lowest. -/
theorem prev?_ne_none {s : Status} {r : Record} (h : s.metBy r = false) : s.prev? ≠ none := by
  cases s with
  | unspecified | new => contradiction
  | _ => nofun

/-- Handling a due entry of the queue is a move, and recounts what the downgrade does. -/
theorem recounts_handle (quiet : host.Quiet) (inStep : L.InStep) {t : Timestamp} {a : AccountId}
    (queued : (t, a) ∈ L.queue) (due : t ≤ now) {post : Ledger → List Notice → Prop}
    (downgrade : ∀ D, Full L.records → (Cascade.downgrade now a).Yields (L.dequeue t a).draft () D →
      (Move.lower now t a).Takes L D.toLedger → post D.toLedger D.notices) :
    host.Recounts
      (Program.delete (Slot.downgrade t a).key >>= fun _ => (Cascade.downgrade now a).commit host)
      (Program.delete (Slot.downgrade t a).key >>= fun _ => (Cascade.downgrade now a).commit host.deaf)
      L fun _ L' ns => (Move.lower now t a).Takes L L' ∧ post L' ns := by
  refine .bind_silent (Recounts.of_becomes (a := ()) fun w hw => hw.run_unschedule t a) ?_
  rintro _ _ ⟨-, rfl⟩
  refine .commit quiet fun _ D full h => ?_
  have htakes := Cascade.takes_of_downgrade (L := L) full inStep queued due h
  exact ⟨htakes.full full, htakes, downgrade D full h htakes⟩

/-- Handling a due entry of the queue. Whoever is scheduled fails the requirement of his tier, so there is
a lower one. -/
theorem recounts_lower (quiet : host.Quiet) (regular : L.Regular) {t : Timestamp} {a : AccountId}
    (queued : (t, a) ∈ L.queue) (due : t ≤ now) :
    host.Recounts
      (Program.delete (Slot.downgrade t a).key >>= fun _ => (Cascade.downgrade now a).commit host)
      (Program.delete (Slot.downgrade t a).key >>= fun _ => (Cascade.downgrade now a).commit host.deaf)
      L fun _ L' ns =>
        (Move.lower now t a).Takes L L' ∧ (board L.records).follow? ns = some (board L'.records) := by
  refine recounts_handle quiet regular.inStep queued due fun D _ h _ => ?_
  obtain ⟨ns, hns, hfollow⟩ := Cascade.chronicles_of_yields_downgrade h fun r hr hscheduled =>
    prev?_ne_none ((regular.climbed a r hr).unmet hscheduled)
  obtain rfl : D.notices = ns := hns
  exact hfollow

/-- Listing the due entries of the queue. -/
theorem recounts_due :
    host.Recounts (Program.range (Slot.due now)) (Program.range (Slot.due now)) L fun entries M ns =>
      (M = L ∧ ∃ due : List (Timestamp × AccountId), due.Pairwise QueueBefore ∧
        (∀ t a, (t, a) ∈ due ↔ (t, a) ∈ L.queue ∧ t ≤ now) ∧
        entries = due.map Ledger.queueEntry) ∧ ns = [] := by
  intro w w' entries hw hrun
  obtain ⟨_, -, -, hdue⟩ := leads_due w w' entries hw hrun
  obtain ⟨hentries, rfl⟩ := Prod.mk.inj ((hw.run_range (Slot.due now)).symm.trans hrun)
  refine ⟨L, [], hw, ⟨⟨rfl, hdue⟩, rfl⟩, fun _ => (List.append_nil _).symm, fun v hv => ?_⟩
  refine ⟨v, ?_, hv, (List.append_nil _).symm⟩
  rw [hv.run_range, hv.stored.eq_map hw.stored, hentries]

section Drain

/-! What draining the queue recounts is put together from what handling its entries recounts. -/

variable {I : Ledger → Prop} {Q : List (Timestamp × AccountId) → Ledger → Ledger → List Notice → Prop}
  (nil : ∀ L, I L → Q [] L L [])
  (cons : ∀ L t a, I L → (t, a) ∈ L.queue → t ≤ now →
    host.Recounts
      (Program.delete (Slot.downgrade t a).key >>= fun _ => (Cascade.downgrade now a).commit host)
      (Program.delete (Slot.downgrade t a).key >>= fun _ => (Cascade.downgrade now a).commit host.deaf)
      L fun _ L₁ ns => (Move.lower now t a).Takes L L₁ ∧ I L₁ ∧
        ∀ rest L' ms, (∀ p ∈ rest, p.2 ≠ a) → Q rest L₁ L' ms → Q ((t, a) :: rest) L L' (ns ++ ms))
include nil cons

/-- Handling entries of the queue, each of another account and due. -/
theorem recounts_drainEach {l : List (Timestamp × AccountId)} (inv : I L)
    (due : ∀ p ∈ l, p ∈ L.queue ∧ p.1 ≤ now) (distinct : l.Pairwise (·.2 ≠ ·.2)) :
    host.Recounts (drainEach host now (l.map Ledger.queueEntry))
      (drainEach host.deaf now (l.map Ledger.queueEntry)) L fun _ L' ns => Q l L L' ns := by
  induction l generalizing L with
  | nil =>
      refine (Recounts.of_run fun w _ => w.run_done ()).mono ?_
      rintro _ _ _ ⟨⟨-, rfl⟩, rfl⟩
      exact nil _ inv
  | cons p rest ih =>
      obtain ⟨t, a⟩ := p
      obtain ⟨hne, hdistinct⟩ := List.pairwise_cons.mp distinct
      obtain ⟨hmem, hdue⟩ := due (t, a) List.mem_cons_self
      rw [List.map_cons, drainEach, drainEach]
      dsimp only [Ledger.queueEntry]
      rw [Slot.parseDowngrade_key]
      refine .bind_silent Recounts.ofExcept ?_
      rintro _ L ⟨hok, rfl⟩
      obtain rfl := Except.ok.inj hok
      dsimp only
      rw [← bind_assoc, ← bind_assoc]
      refine .bind (cons _ t a inv hmem hdue) ?_
      rintro _ L₁ ns ⟨htakes, hinv, hcons⟩
      exact (ih hinv (queued_of_lower htakes hne due) hdistinct).mono fun _ L' ms =>
        hcons rest L' ms fun p hp => (hne p hp).symm

/-- **Draining the queue** handles the due entries in order, and gives their number. -/
theorem recounts_drain (inStep : L.InStep) (inv : I L) :
    host.Recounts (drain host now) (drain host.deaf now) L fun n L' ns =>
      ∃ due : List (Timestamp × AccountId), due.Pairwise QueueBefore ∧
        (∀ t a, (t, a) ∈ due ↔ (t, a) ∈ L.queue ∧ t ≤ now) ∧ n = due.length ∧ Q due L L' ns := by
  refine .bind_silent recounts_due ?_
  rintro _ L ⟨rfl, due, hsorted, hmem, rfl⟩
  have hdue : ∀ p ∈ due, p ∈ L.queue ∧ p.1 ≤ now := fun p hp => (hmem p.1 p.2).mp hp
  have hdistinct := inStep.pairwise_ne hsorted fun p hp => (hdue p hp).1
  refine .bind (recounts_drainEach nil cons inv hdue hdistinct) ?_
  intro _ L' ns hQ
  refine (Recounts.of_run fun w _ => w.run_done (due.map Ledger.queueEntry).length).mono ?_
  rintro _ _ _ ⟨⟨rfl, rfl⟩, rfl⟩
  exact ⟨due, hsorted, hmem, List.length_map _, (List.append_nil ns).symm ▸ hQ⟩

end Drain

/-- **The beginning of a block.** -/
theorem recounts_beginBlock (quiet : host.Quiet) (regular : L.Regular) :
    host.Recounts (beginBlock host now) (beginBlock host.deaf now) L (recounted L) := by
  have hdiscard : ∀ host, beginBlock host now = drain host now >>= fun _ => pure () := by
    intro host
    rw [beginBlock, Functor.discard, map_const, Function.comp, map_eq_pure_bind]
  have hdrain : host.Recounts (drain host now) (drain host.deaf now) L fun n L' ns =>
      ∃ due : List (Timestamp × AccountId), due.Pairwise QueueBefore ∧
        (∀ t a, (t, a) ∈ due ↔ (t, a) ∈ L.queue ∧ t ≤ now) ∧ n = due.length ∧
          (board L.records).follow? ns = some (board L'.records) := by
    refine recounts_drain (I := Ledger.Regular)
      (Q := fun _ L L' ns => (board L.records).follow? ns = some (board L'.records))
      (fun L _ => Board.follow?_nil _) (fun L t a hL queued due => ?_) regular.inStep regular
    refine (recounts_lower quiet hL queued due).mono ?_
    rintro _ L₁ ns ⟨htakes, hfollow⟩
    refine ⟨htakes, htakes.regular trivial trivial hL, fun rest L' ms _ hrest => ?_⟩
    rw [Board.follow?_append, hfollow, Option.bind_some, hrest]
  rw [hdiscard, hdiscard]
  refine hdrain.bind ?_
  rintro n L' ns ⟨due, -, -, -, hfollow⟩
  refine (Recounts.of_run fun w _ => w.run_done ()).mono ?_
  rintro _ _ _ ⟨⟨-, rfl⟩, rfl⟩
  exact .of_eq ((List.append_nil ns).symm ▸ hfollow)

end Forest

/-- **What each operation recounts** from a regular ledger, if it settles what it changes and leaves
activity to the stakes. -/
theorem Operation.recounts_program {host : Host} (quiet : host.Quiet) {L : Ledger} (regular : L.Regular)
    {op : Operation} (settles : op.Settles) (leaves : op.LeavesActivity) (now : Timestamp) :
    host.Recounts (op.program host now) (op.program host.deaf now) L (Forest.recounted L) := by
  cases op with
  | addRoot a s => exact Forest.recounts_addRoot quiet a s
  | append p c => exact Forest.recounts_append quiet regular.climbed p c
  | register request => exact Forest.recounts_register quiet regular.climbed request
  | importGenesis g => exact settles.elim
  | importParts roots groups downgrades => exact settles.elim
  | changeStake a delta => exact Forest.recounts_changeStake quiet a delta
  | setActive a active checked => exact leaves.elim
  | beginBlock => exact Forest.recounts_beginBlock quiet regular
  | setParams p => exact Forest.recounts_setParams p
  | updateParams request =>
      rw [program, program, Forest.updateParams]
      split
      next hsender =>
        rw [Forest.updateParams, if_pos (show request.sender = host.deaf.authority.text from hsender)]
        exact Forest.recounts_setParams request.params
      next => exact .fail

/-! ### Turns -/

/-- **The notices of a turn are a faithful log** of what it does to a store. -/
structure Turn.Chronicled (host : Host) (turn : Turn) (store : Store) (w : World) : Prop where
  /-- The operation ends alike where nobody listens. -/
  deaf : ∃ w₀, turn.outcome host.deaf store = (.ok (), w₀) ∧ w₀.store.view = w.store.view
  /-- Where no listener tells a notice, there are no others than the operation's own. -/
  notices : host.Discreet → w.notices = turn.ownNotices host store
  /-- They follow the tiers and the schedules of all accounts there were. -/
  follows : ∃ m m', store.Holds m ∧ w.store.Holds m' ∧ m.Followed m' (turn.ownNotices host store)

/-- **Every successful turn is chronicled** on a store that keeps a regular ledger. -/
theorem Ledger.Regular.chronicled {L : Ledger} (regular : L.Regular) {store : Store}
    (keeps : (World.ofStore store).Keeps L) {host : Host} (quiet : host.Quiet) {turn : Turn}
    (settles : turn.operation.Settles) (leaves : turn.operation.LeavesActivity) {w : World}
    (success : turn.outcome host store = (.ok (), w)) : turn.Chronicled host store w := by
  obtain ⟨w₁, hrun, -, hview, hlog⟩ := World.log_of_transact_eq keeps.free success
  obtain ⟨L', ns, hkept, hfollowed, hdiscreet, hdeaf⟩ :=
    turn.operation.recounts_program quiet regular settles leaves turn.time _ _ _ keeps.branch hrun
  obtain ⟨v, hrun₀, hkept₀, hns⟩ := hdeaf _ keeps.branch
  obtain ⟨store₀, htransact, hfree₀, hview₀⟩ := World.transact_of_run keeps.free hrun₀
  have houtcome : turn.outcome host.deaf store = (.ok (), { v with store := store₀ }) := htransact
  have hown : turn.ownNotices host store = ns := by
    rw [Turn.ownNotices, houtcome]
    exact hns
  have hsame : store₀.view = w.store.view := by
    rw [hview₀, hview, hkept₀.stored.eq_map hkept.stored]
  refine ⟨⟨_, houtcome, hsame⟩, fun discreet => ?_, L.records, L'.records, ?_, ?_, hown ▸ hfollowed⟩
  · rw [hown, World.notices, hlog]
    exact hdiscreet discreet
  · exact Forest.holds_of_keeps keeps
  · obtain ⟨-, -, hfree, -⟩ := World.transact_ok keeps.free success
    exact Forest.holds_of_keeps ⟨hfree, hview ▸ hkept.stored⟩

/-- **After every history** of operations that settle what they change and leave activity to the stakes,
every such operation that succeeds is chronicled. -/
theorem Forest.chronicled_after {host : Host} (quiet : host.Quiet) {turns : List Turn}
    (settles : ∀ turn ∈ turns, turn.operation.Settles)
    (leaves : ∀ turn ∈ turns, turn.operation.LeavesActivity) {turn : Turn}
    (settles' : turn.operation.Settles) (leaves' : turn.operation.LeavesActivity) {w : World}
    (success : turn.outcome host (after host turns) = (.ok (), w)) :
    turn.Chronicled host (after host turns) w := by
  obtain ⟨L, hkeeps, hregular⟩ := exists_regular quiet settles leaves
  exact hregular.chronicled hkeeps quiet settles' leaves' success

/-- The referral of the small forest loses stake. -/
def SmallHistory.loss : Turn := ⟨⟨1000⟩, .changeStake leaf (-1)⟩

/-- The loss puts the referral on notice, and that is told. -/
theorem Forest.chronicled_after_small :
    (Host.standalone.Quiet ∧ (∀ turn ∈ SmallHistory.turns, turn.operation.Settles) ∧
      ∀ turn ∈ SmallHistory.turns, turn.operation.LeavesActivity) ∧
    ∃ w, SmallHistory.loss.outcome Host.standalone (after Host.standalone SmallHistory.turns) =
        (.ok (), w) ∧
      w.notices = [.willBeDowngraded SmallHistory.leaf ⟨605800⟩] ∧
      SmallHistory.loss.Chronicled Host.standalone (after Host.standalone SmallHistory.turns) w := by
  have hends : (SmallHistory.loss.outcome Host.standalone
        (after Host.standalone SmallHistory.turns)).1 = .ok () ∧
      (SmallHistory.loss.outcome Host.standalone
        (after Host.standalone SmallHistory.turns)).2.notices =
          [.willBeDowngraded SmallHistory.leaf ⟨605800⟩] := by decide +kernel
  rcases houtcome : SmallHistory.loss.outcome Host.standalone
    (after Host.standalone SmallHistory.turns) with ⟨result, w⟩
  rw [houtcome] at hends
  obtain ⟨rfl, hnotices⟩ := hends
  have hsettles' : SmallHistory.loss.operation.Settles := trivial
  have hleaves' : SmallHistory.loss.operation.LeavesActivity := trivial
  have hchronicled := chronicled_after Host.quiet_standalone SmallHistory.settles
    SmallHistory.leavesActivity hsettles' hleaves' houtcome
  exact ⟨⟨Host.quiet_standalone, SmallHistory.settles, SmallHistory.leavesActivity⟩, w, rfl, hnotices,
    hchronicled⟩

end ReferralForest

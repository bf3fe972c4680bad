import ReferralForest.Forest.Visit
import ReferralForest.Proofs.Cascade.Succeeding
import ReferralForest.Proofs.Forest.Attaining
import ReferralForest.Proofs.Forest.Regular
import ReferralForest.Proofs.Ledger.Telling

/-!
# Re-evaluation Is Inert

Many operations check the status of accounts that did not change: all ancestors of a new referral, all
ancestors of an account whose stake changes, everybody whom a visitor wants settled. Where everybody has
climbed as far as possible such a check gives back the record it is given, tells nothing and announces
nothing, so the record is written over itself.

## Main definitions

* `Draft.Murmurs` — drafts that differ in announced stake changes only.
* `Turn.ownNotices` — the notices that an operation tells of itself.
* `Store.Inert` — re-evaluating anybody in a store changes nothing.

## Main statements

* `Cascade.yields_refresh_of_climbed`, `Cascade.yields_update_of_climbed` — checks of settled records.
* `Cascade.exists_yields_register`, `Cascade.yields_changeStake_zero`, `Cascade.yields_visit_of_idle` —
  what the cascades yield on settled drafts.
* `Forest.inert_after` — re-evaluation is inert after every history that settles what it changes.
-/

namespace ReferralForest

open Roster

/-- **A draft murmurs** on the way to another if nothing but stake changes is announced. -/
structure Draft.Murmurs (D D' : Draft) : Prop where
  /-- The ledger stays. -/
  ledger : D'.toLedger = D.toLedger
  /-- No notice is told. -/
  notices : D'.notices = D.notices
  /-- Nothing but stake changes is announced. -/
  callbacks : ∀ e ∈ D'.callbacks.toList, e ∈ D.callbacks.toList ∨ e.1.event = .stakeChanged

namespace Draft.Murmurs

variable {D D₁ D' : Draft}

/-- A draft murmurs where nothing happens. -/
theorem refl : D.Murmurs D := ⟨rfl, rfl, fun _ he => .inl he⟩

/-- A draft murmurs in two parts. -/
theorem trans (h : D.Murmurs D₁) (h' : D₁.Murmurs D') : D.Murmurs D' where
  ledger := h'.ledger.trans h.ledger
  notices := h'.notices.trans h.notices
  callbacks e he := (h'.callbacks e he).elim (h.callbacks e) .inr

/-- Announcing a stake change. -/
theorem announce (D : Draft) (a : AccountId) : D.Murmurs (D.announce ⟨a, .stakeChanged⟩) where
  ledger := rfl
  notices := rfl
  callbacks := by
    classical
    rintro ⟨target, ⟨⟩⟩ he
    have hget : (D.callbacks.insert ⟨a, .stakeChanged⟩ ()).get? target = some () :=
      SortedMap.mem_toList_iff.mp he
    rw [SortedMap.get?_insert] at hget
    split at hget
    next htarget => exact .inr (htarget ▸ rfl)
    next => exact .inl (SortedMap.mem_toList_iff.mpr hget)

end Draft.Murmurs

/-! ### Cascades on settled drafts -/

namespace Cascade

variable {β : Type} {D : Draft} {now : Timestamp} {a : AccountId} {r : Record}

/-- **A status check of a record that has climbed** gives the record back and does nothing else. -/
theorem yields_refresh_of_climbed (climbed : r.Climbed) : (refresh now a r).Yields D r D := by
  rw [yields_refresh]
  cases hd : r.downgradeAt with
  | none =>
      have hmet : D.Refreshes a now r { r with status := climb r r.status }
          (D.rise a r.status (climb r r.status)) := .met (climbed.met hd) hd
      rwa [climb_eq_self (climbed.stops hd), Draft.rise_self] at hmet
  | some t => exact .waiting (climbed.unmet (by simp [hd])) hd

section Settled

variable (full : Full D.records) (climbed : Roster.Climbed D.records)
include full climbed

/-- **An update that changes nothing** of a record that has climbed leaves the draft as it is. -/
theorem yields_update_of_climbed {checkAt : Option Timestamp} {change : Record → Cascade (β × Record)}
    {b : β} (found : D.records.get? a = some r) (idle : (change r).Yields D (b, r) D) :
    (update checkAt a change).Yields D (some b) D := by
  obtain ⟨hload, hchange⟩ := yields_load_change full.padded found idle
  have hsame : D = D.withLedger (D.toLedger.put a r) := by
    rw [Ledger.put, SortedMap.insert_of_get? found]
    rfl
  have hput : (put a r >>= fun _ => pure (some b)).Yields D (some b) D :=
    yields_bind.mpr ⟨(), D, yields_put.mpr hsame, yields_done.mpr ⟨rfl, rfl⟩⟩
  rw [update]
  refine yields_bind.mpr ⟨some r, D, hload, yields_bind.mpr ⟨(b, r), D, hchange, ?_⟩⟩
  cases checkAt with
  | none => exact hput
  | some now =>
      have hcheck : (refresh now a r).Yields D r D := yields_refresh_of_climbed (climbed a r found)
      exact yields_bind.mpr ⟨r, D, yields_mapError.mpr hcheck, hput⟩

/-- Touching an account, whether it has a record or not. -/
theorem exists_yields_touch (now : Timestamp) (a : AccountId) :
    ∃ parent, (touch now a).Yields D parent D := by
  cases hr : D.records.get? a with
  | none => exact ⟨none, yields_map.mpr ⟨none, yields_update_of_none hr, rfl⟩⟩
  | some r =>
      have hupdate : (update (some now) a fun r => pure (r.referrer, r)).Yields D (some r.referrer) D :=
        yields_update_of_climbed full climbed hr (yields_done.mpr ⟨rfl, rfl⟩)
      exact ⟨r.referrer, yields_map.mpr ⟨some r.referrer, hupdate, rfl⟩⟩

/-- Touching ancestors murmurs. -/
theorem exists_yields_touchAncestors (now : Timestamp) (levels : Nat) (start : Option AccountId) :
    ∃ D', (touchAncestors now levels start).Yields D () D' ∧ D.Murmurs D' := by
  induction levels generalizing start D with
  | zero => exact ⟨D, yields_done.mpr ⟨rfl, rfl⟩, .refl⟩
  | succ levels ih =>
      cases start with
      | none => exact ⟨D, yields_done.mpr ⟨rfl, rfl⟩, .refl⟩
      | some ancestor =>
          obtain ⟨parent, htouch⟩ := exists_yields_touch full climbed now ancestor
          obtain ⟨D', hrest, hmurmurs⟩ :=
            ih (D := D.announce ⟨ancestor, .stakeChanged⟩) full climbed parent
          refine ⟨D', ?_, (Draft.Murmurs.announce D ancestor).trans hmurmurs⟩
          rw [touchAncestors]
          exact yields_bind.mpr ⟨parent, D, htouch,
            yields_bind.mpr ⟨(), _, yields_announce.mpr rfl, hrest⟩⟩

/-- **Adding a referral** to a settled draft puts its record and marks it as a referral, and murmurs. -/
theorem exists_yields_register (now : Timestamp) (p c : AccountId) :
    ∃ D', (register now p c).Yields D () D' ∧
      (D.withLedger ((D.toLedger.put c (.fresh (some p) .new)).relate p c)).Murmurs D' := by
  have hfull : Full (D.toLedger.put c (.fresh (some p) .new)).records :=
    full.insert (Record.length_fresh _ _)
  have hclimbed : Roster.Climbed (D.toLedger.put c (.fresh (some p) .new)).records :=
    SortedMap.forall_insert climbed (Record.climbed_fresh (some p))
  obtain ⟨grandparent, htouch⟩ := exists_yields_touch
    (D := D.withLedger (D.toLedger.put c (.fresh (some p) .new))) hfull hclimbed now p
  let related := D.withLedger ((D.toLedger.put c (.fresh (some p) .new)).relate p c)
  obtain ⟨D', hrest, hmurmurs⟩ := exists_yields_touchAncestors
    (D := related.announce ⟨p, .stakeChanged⟩) hfull hclimbed now (maxDepth - 1) grandparent
  refine ⟨D', ?_, (Draft.Murmurs.announce related p).trans hmurmurs⟩
  rw [register]
  exact yields_bind.mpr ⟨(), _, yields_put.mpr rfl, yields_bind.mpr ⟨grandparent, _, htouch,
    yields_bind.mpr ⟨(), related, yields_relate.mpr rfl,
      yields_bind.mpr ⟨(), _, yields_announce.mpr rfl, hrest⟩⟩⟩⟩

/-- Raising the team stakes by nothing, as far as there are ancestors. -/
theorem yields_raiseTeams_zero {bound : Nat} {start : Option AccountId}
    (ends : start.bind (ancestor? D.records bound) = none) :
    (raiseTeams now 0 bound start).Yields D () D := by
  induction bound generalizing start with
  | zero =>
      cases start with
      | none => exact yields_done.mpr ⟨rfl, rfl⟩
      | some ancestor => contradiction
  | succ bound ih =>
      cases start with
      | none => exact yields_done.mpr ⟨rfl, rfl⟩
      | some ancestor =>
          rw [Option.bind_some, ancestor?] at ends
          have hupdate : (update (some now) ancestor (addTeamStake 0)).Yields D
              ((D.records.get? ancestor).map Record.referrer) D := by
            cases hr : D.records.get? ancestor with
            | none => exact yields_update_of_none hr
            | some r =>
                refine yields_update_of_climbed full climbed hr
                  (yields_bind.mpr ⟨r.teamStake, D, ?_, ?_⟩)
                · exact yields_checked.mpr ⟨Amount.shift?_eq_some_iff.mpr (by simp), rfl⟩
                · exact yields_done.mpr ⟨rfl, rfl⟩
          have hparent : ((D.records.get? ancestor).map Record.referrer).join =
              parentOf D.records ancestor := by
            rw [parentOf]
            cases D.records.get? ancestor <;> rfl
          rw [raiseTeams]
          refine yields_bind.mpr ⟨_, D, hupdate, ?_⟩
          rw [if_neg (by simp), hparent]
          exact ih ends

/-- **A stake that changes by nothing** leaves a settled draft as it is, as long as the walk over the
ancestors may be as long as there are records. -/
theorem yields_changeStake_zero {bound : Nat} (sound : Sound D.records)
    (bounded : D.records.size ≤ bound) : (changeStake now a 0 bound).Yields D () D := by
  cases hr : D.records.get? a with
  | none => exact yields_bind.mpr ⟨none, D, yields_update_of_none hr, yields_done.mpr ⟨rfl, rfl⟩⟩
  | some r =>
      have hupdate : (update (some now) a (addSelfStake 0)).Yields D (some (none, r.referrer)) D := by
        refine yields_update_of_climbed full climbed hr (yields_bind.mpr ⟨r.selfStake, D, ?_, ?_⟩)
        · exact yields_checked.mpr ⟨Amount.shift?_eq_some_iff.mpr (by simp), rfl⟩
        · dsimp only
          rw [if_pos (sound.activeByStake a r hr).symm]
          exact yields_done.mpr ⟨rfl, rfl⟩
      have hends : r.referrer.bind (ancestor? D.records bound) = none := by
        rw [← parentOf_of_get? hr]
        exact sound.recounted.forest.ancestor?_eq_none_of_size_le (by simp [hr])
          (Nat.le_succ_of_le bounded)
      rw [changeStake]
      refine yields_bind.mpr ⟨_, D, hupdate, ?_⟩
      dsimp only
      rw [if_neg (by simp)]
      exact yields_bind.mpr ⟨(), D, yields_raiseTeams_zero full climbed hends,
        yields_done.mpr ⟨rfl, rfl⟩⟩

/-- **A visitor who changes nothing** leaves a settled draft as it is, whomever he has settled. -/
theorem yields_visit_of_idle {σ : Type} {visitor : σ → AccountId → Record → σ × Visit}
    (idle : ∀ s a r, (visitor s a r).2.changed = false) (s : σ) (l : List (AccountId × Record)) :
    (visit now visitor s l).Yields D (l.foldl (fun s e => (visitor s e.1 e.2).1) s) D := by
  induction l generalizing s with
  | nil => exact yields_done.mpr ⟨rfl, rfl⟩
  | cons e rest ih =>
      obtain ⟨a, r⟩ := e
      rw [visit, List.foldl_cons]
      cases hleft : visitor s a r with
      | mk s' left =>
        have hidle : left.changed = false := by
          have := idle s a r
          rwa [hleft] at this
        have hrest := ih s'
        dsimp only
        rw [hidle]
        cases left.settle with
        | false => exact hrest
        | true =>
            have hupdate : ∃ result,
                (update (some now) a fun stored => pure ((), stored)).Yields D result D := by
              cases hr : D.records.get? a with
              | none => exact ⟨none, yields_update_of_none hr⟩
              | some stored =>
                  exact ⟨some (), yields_update_of_climbed full climbed hr (yields_done.mpr ⟨rfl, rfl⟩)⟩
            obtain ⟨result, hupdate⟩ := hupdate
            exact yields_bind.mpr ⟨result, D, hupdate, hrest⟩

end Settled

end Cascade

/-! ### Turns -/

/-- **The notices that an operation tells of itself**, whatever its listeners tell. -/
def Turn.ownNotices (host : Host) (turn : Turn) (store : Store) : List Notice :=
  (turn.outcome host.deaf store).2.notices

namespace Ledger.Regular

variable {L : Ledger} {w : World}

/-- **What comes of adding a referral** to a regular ledger, up to the announcements: nothing but stake
changes is announced. -/
theorem exists_run_append (h : L.Regular) (keeps : w.Keeps L) (now : Timestamp) {p c : AccountId}
    (fresh : L.records.get? c = none) (placed : L.records.get? p ≠ none) :
    ∃ (w₁ : World) (l : List (Callback × Unit)),
      w₁.Keeps ((L.put c (.fresh (some p) .new)).relate p c) ∧ w₁.log = w.log ∧
      (∀ e ∈ l, e.1.event = .stakeChanged) ∧
      ∀ host, w.run (Forest.append host now p c) = w₁.run (Cascade.announceAll host l) := by
  have hfull := keeps.stored.full
  obtain ⟨D, hyields, hmurmurs⟩ :=
    Cascade.exists_yields_register (D := L.draft) hfull h.climbed now p c
  have hledger : D.toLedger = (L.put c (.fresh (some p) .new)).relate p c := hmurmurs.ledger
  have hfull' : Full D.records := by
    rw [hledger]
    exact hfull.insert (Record.length_fresh _ _)
  obtain ⟨w₁, hkeeps, hlog, hrun⟩ := keeps.exists_run_commit hyields hfull'
  rw [hmurmurs.notices] at hlog
  refine ⟨w₁, D.callbacks.toList, hledger ▸ hkeeps, hlog.trans (List.append_nil _), ?_, fun host => ?_⟩
  · intro e he
    exact (hmurmurs.callbacks e he).resolve_left List.not_mem_nil
  · have hcheck : w.run (Forest.checkPlacement p c) = (.ok (), w) := by
      rw [keeps.run_checkPlacement, fresh, if_neg (by simp),
        if_pos (Option.isSome_iff_ne_none.mpr placed)]
    rw [Forest.append, World.run_bind_of_ok hcheck, hrun]
    exact congrArg w₁.run (bind_pure _)

/-- **A stake that changes by nothing** writes a regular ledger over itself, for all hosts alike. -/
theorem exists_run_changeStake (h : L.Regular) (keeps : w.Keeps L) (now : Timestamp) (a : AccountId) :
    ∃ w₁ : World, w₁.Keeps L ∧ w₁.log = w.log ∧
      ∀ host, w.run (Forest.changeStake host now a 0) = (.ok (), w₁) := by
  have hfull := keeps.stored.full
  have hyields : (Cascade.changeStake now a 0 w.store.size).Yields L.draft () L.draft :=
    Cascade.yields_changeStake_zero hfull h.climbed h.sound keeps.stored.size_records_le
  obtain ⟨w₁, hkeeps, hlog, hrun⟩ := keeps.exists_run_commit hyields hfull
  refine ⟨w₁, hkeeps, hlog.trans (List.append_nil _), fun host => ?_⟩
  rw [Forest.changeStake]
  exact (World.run_bind_of_ok (World.run_request w Call.size) _).trans (hrun host)

/-- **A visitor who changes nothing** has a regular ledger written over itself, for all hosts alike. -/
theorem exists_run_visit {σ : Type} (h : L.Regular) (keeps : w.Keeps L) (now : Timestamp)
    {visitor : σ → AccountId → Record → σ × Visit} (idle : ∀ s a r, (visitor s a r).2.changed = false)
    (s : σ) : ∃ (w₁ : World) (s' : σ), w₁.Keeps L ∧ w₁.log = w.log ∧
      ∀ host, w.run (Forest.visit host now visitor s) = (.ok s', w₁) := by
  have hfull := keeps.stored.full
  let last := L.records.toList.foldl (fun s e => (visitor s e.1 e.2).1) s
  have hyields : (Cascade.visit now visitor s L.records.toList).Yields L.draft last L.draft :=
    Cascade.yields_visit_of_idle hfull h.climbed idle s L.records.toList
  obtain ⟨w₁, hkeeps, hlog, hrun⟩ := keeps.exists_run_commit hyields hfull
  refine ⟨w₁, last, hkeeps, hlog.trans (List.append_nil _), fun host => ?_⟩
  rw [Forest.visit, World.run_bind_of_ok keeps.run_allRecords]
  exact hrun host

end Ledger.Regular

/-- A program that ends alike for all hosts, on a ledger it leaves as it is, leaves the store of a
transaction as it is. -/
theorem World.exists_transact_of_run {α : Type} {store : Store} {L : Ledger} {a : α}
    (keeps : (ofStore store).Keeps L) {p : Host → Program α} {w₁ : World} (kept : w₁.Keeps L)
    (silent : w₁.log = [])
    (run : ∀ host, World.run { ofStore store with store := store.branch } (p host) = (.ok a, w₁)) :
    ∃ w : World, w.store.view = store.view ∧ w.log = [] ∧
      ∀ host, (ofStore store).transact (p host) = (.ok a, w) := by
  obtain ⟨store', htransact, -, hview⟩ := transact_of_run keeps.free (run Host.standalone)
  refine ⟨{ w₁ with store := store' }, ?_, silent, fun host => ?_⟩
  · exact hview.trans (kept.stored.eq_map keeps.stored)
  · rw [← htransact]
    exact transact_congr ((run host).trans (run _).symm)

/-- **A referral more** in a map of keys and values: its record and the mark of its referrer are added,
both keys are new, and nothing else changes. -/
structure Store.OneReferralMore (m m' : SortedMap Key Value) (p c : AccountId) : Prop where
  /-- The key of the record is new. -/
  record : m.get? (Slot.record c).key = none
  /-- The key of the mark is new. -/
  relation : m.get? (Slot.relation p c).key = none
  /-- Just these two are added. -/
  eq_insert : m' = (m.insert (Slot.record c).key (Record.fresh (some p) .new).encode).insert
    (Slot.relation p c).key marker

/-- **Re-evaluation is inert** in a store.

A referral that is added leaves everything as it is that was there before. A stake that changes by nothing
and a visitor who only has everybody settled leave every byte as it is. None of them tells a notice, and
none calls a listener to changes of tiers: the first ends alike for all hosts with the same listeners to
stake changes, the others for all hosts whatever. -/
structure Store.Inert (host : Host) (store : Store) : Prop where
  /-- A referral is added. -/
  append : ∀ now p c w, Turn.outcome host ⟨now, .append p c⟩ store = (.ok (), w) →
    OneReferralMore store.view w.store.view p c ∧
    Turn.ownNotices host ⟨now, .append p c⟩ store = [] ∧ (host.Discreet → w.notices = []) ∧
    ∀ host' : Host, host.SameListeners .stakeChanged host' →
      Turn.outcome host' ⟨now, .append p c⟩ store = (.ok (), w)
  /-- A stake changes by nothing. -/
  changeStake : ∀ now a, ∃ w : World, w.store.view = store.view ∧ w.log = [] ∧
    ∀ host' : Host, Turn.outcome host' ⟨now, .changeStake a 0⟩ store = (.ok (), w)
  /-- A visitor changes nothing and has everybody settled. -/
  visit : ∀ {σ : Type} (now : Timestamp) (visitor : σ → AccountId → Record → σ × Visit) (s : σ),
    (∀ s a r, (visitor s a r).2.changed = false ∧ (visitor s a r).2.settle = true) →
    ∃ (w : World) (s' : σ), w.store.view = store.view ∧ w.log = [] ∧
      ∀ host' : Host, (World.ofStore store).transact (Forest.visit host' now visitor s) = (.ok s', w)

/-- A new referral is one referral more where the ledger is stored. -/
theorem Ledger.StoredIn.oneReferralMore {L : Ledger} {m m' : SortedMap Key Value} {p c : AccountId}
    (h : L.StoredIn m) (related : L.Related) (fresh : L.records.get? c = none)
    (h' : ((L.put c (.fresh (some p) .new)).relate p c).StoredIn m') :
    Store.OneReferralMore m m' p c where
  record := by rw [h.value, Ledger.value?, fresh, Option.map_none]
  relation := by
    have hunrelated : (p, c) ∉ L.relations := by
      rw [related p c, parentOf, fresh, Option.bind_none]
      simp
    rw [h.value, Ledger.value?]
    exact if_neg hunrelated
  eq_insert := h'.eq_map ((h.put_record (Record.length_fresh _ _)).put_relate p c)

/-- Whoever is added as a referral is new, and the referrer is there. -/
theorem World.Keeps.of_run_append {w w' : World} {L : Ledger} (h : w.Keeps L) {host : Host}
    {now : Timestamp} {p c : AccountId} (hrun : w.run (Forest.append host now p c) = (.ok (), w')) :
    L.records.get? c = none ∧ L.records.get? p ≠ none := by
  obtain ⟨_, _, hcheck, -⟩ := run_bind_eq_ok_iff.mp hrun
  rw [h.run_checkPlacement] at hcheck
  split at hcheck
  next => simp at hcheck
  next hfresh =>
    split at hcheck
    next hplaced => exact ⟨Option.not_isSome_iff_eq_none.mp hfresh, Option.isSome_iff_ne_none.mp hplaced⟩
    next => simp at hcheck

namespace Ledger.Regular

variable {L : Ledger} {store : Store} {host : Host}

/-- Adding a referral to a store that keeps a regular ledger. -/
theorem of_append (h : L.Regular) (keeps : (World.ofStore store).Keeps L) (quiet : host.Quiet)
    {now : Timestamp} {p c : AccountId} {w : World}
    (success : Turn.outcome host ⟨now, .append p c⟩ store = (.ok (), w)) :
    Store.OneReferralMore store.view w.store.view p c ∧
      Turn.ownNotices host ⟨now, .append p c⟩ store = [] ∧ (host.Discreet → w.notices = []) ∧
      ∀ host' : Host, host.SameListeners .stakeChanged host' →
        Turn.outcome host' ⟨now, .append p c⟩ store = (.ok (), w) := by
  obtain ⟨w₂, hrun, -, hview, hlog⟩ := World.log_of_transact_eq keeps.free success
  obtain ⟨fresh, placed⟩ := keeps.branch.of_run_append hrun
  obtain ⟨w₁, l, hkept, hsilent, hl, hall⟩ := h.exists_run_append keeps.branch now fresh placed
  have hannounce : w₁.run (Cascade.announceAll host l) = (.ok (), w₂) := (hall host).symm.trans hrun
  refine ⟨?_, ?_, fun discreet => ?_, fun host' same => ?_⟩
  · have hstore := World.store_run_announceAll quiet hkept.free l
    rw [hannounce] at hstore
    rw [hview]
    exact keeps.stored.oneReferralMore h.related fresh (hkept.of_store_eq hstore).stored
  · have hdeaf := ((hall host.deaf).trans (congrArg w₁.run (host.announceAll_deaf l))).trans
      (w₁.run_done ())
    obtain ⟨store', htransact, -, -⟩ := World.transact_of_run keeps.free hdeaf
    have houtcome : Turn.outcome host.deaf ⟨now, .append p c⟩ store =
        (.ok (), { w₁ with store := store' }) := htransact
    rw [Turn.ownNotices, houtcome, World.notices, hsilent]
    rfl
  · have hnotices := discreet.notices_run_announceAll w₁ l
    rw [hannounce] at hnotices
    rw [World.notices, hlog]
    exact hnotices.trans (by rw [World.notices, hsilent]; rfl)
  · refine Eq.trans (World.transact_congr ?_) success
    have hsame : Cascade.announceAll host' l = Cascade.announceAll host l :=
      Host.announceAll_congr fun e he => (hl e he).symm ▸ same.symm
    exact (hall host').trans ((congrArg w₁.run hsame).trans (hall host).symm)

/-- **Re-evaluation is inert** in a store that keeps a regular ledger. -/
theorem inert (h : L.Regular) (keeps : (World.ofStore store).Keeps L) (quiet : host.Quiet) :
    store.Inert host where
  append _ _ _ _ success := h.of_append keeps quiet success
  changeStake now a := by
    obtain ⟨w₁, hkept, hlog, hrun⟩ := h.exists_run_changeStake keeps.branch now a
    exact World.exists_transact_of_run keeps hkept hlog hrun
  visit now visitor s idle := by
    obtain ⟨w₁, s', hkept, hlog, hrun⟩ :=
      h.exists_run_visit keeps.branch now (fun s a r => (idle s a r).1) s
    obtain ⟨w, hview, hsilent, htransact⟩ := World.exists_transact_of_run keeps hkept hlog hrun
    exact ⟨w, s', hview, hsilent, htransact⟩

end Ledger.Regular

/-- **Re-evaluation is inert after every history** of operations that settle what they change and leave
activity to the stakes. -/
theorem Forest.inert_after {host : Host} (quiet : host.Quiet) {turns : List Turn}
    (settles : ∀ turn ∈ turns, turn.operation.Settles)
    (leaves : ∀ turn ∈ turns, turn.operation.LeavesActivity) :
    (Forest.after host turns).Inert host := by
  obtain ⟨L, hkeeps, hregular⟩ := exists_regular quiet settles leaves
  exact hregular.inert hkeeps quiet

/-- Re-evaluation is inert after the small history, and there a referral can be added. -/
theorem Forest.inert_after_small :
    (Host.standalone.Quiet ∧ (∀ turn ∈ SmallHistory.turns, turn.operation.Settles) ∧
      ∀ turn ∈ SmallHistory.turns, turn.operation.LeavesActivity) ∧
    (Forest.after Host.standalone SmallHistory.turns).Inert Host.standalone ∧
    (Turn.outcome Host.standalone ⟨⟨1000⟩, .append SmallHistory.leaf ⟨"twig", by decide, by decide⟩⟩
      (Forest.after Host.standalone SmallHistory.turns)).1 = .ok () := by
  have hinert := inert_after Host.quiet_standalone SmallHistory.settles SmallHistory.leavesActivity
  exact ⟨⟨Host.quiet_standalone, SmallHistory.settles, SmallHistory.leavesActivity⟩, hinert,
    by decide +kernel⟩

end ReferralForest

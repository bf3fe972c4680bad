import ReferralForest.Proofs.Cascade.Chronicle
import ReferralForest.Proofs.Cascade.Dispatch
import ReferralForest.Proofs.Forest.Delegations
import ReferralForest.Proofs.Ledger.Telling

/-!
# What a Stake Change Announces

Listeners hear of a stake change when it is carried out: those to stakes about the account and all its
ancestors, unless the change is by nothing, and those to tiers about every account whose tier is another
one afterwards. Nobody hears of an account twice, though a cascade may come to it many times and promote
it more than once: tiers only rise on the way, and a draft keeps each event once.

## Main definitions

* `Draft.Announced` — the events a draft holds.
* `Draft.Heralds` — the tiers that rise on the way from a draft to another are those announced.
* `Host.attended`, `World.heard` — a host with one listener to each event, and what they are called about.
* `Store.Announces` — who is heard of when a stake changes.

## Main statements

* `Cascade.announced_of_yields_changeStake` — a stake change announces the account and its ancestors.
* `Cascade.heralds_of_yields_changeStake` — it announces the tiers that rise.
* `Forest.announces_after` — what the listeners are called about after every history.
-/

namespace ReferralForest

/-! ### Drafts -/

namespace Draft

/-- **The events a draft holds.** -/
def Announced (D : Draft) (target : Callback) : Prop := D.callbacks.get? target ≠ none

/-- **The tiers that rise on the way** from a draft to another are those announced on the way: each
account keeps its tier and is not announced, or it has a higher one and is. -/
def Heralds (D D' : Draft) : Prop :=
  ∀ b, (D'.records.get? b).map Record.status = (D.records.get? b).map Record.status ∧
      (D'.Announced ⟨b, .statusUpdated⟩ ↔ D.Announced ⟨b, .statusUpdated⟩) ∨
    ∃ r r', D.records.get? b = some r ∧ D'.records.get? b = some r' ∧ r.status < r'.status ∧
      D'.Announced ⟨b, .statusUpdated⟩

variable {D D₁ D' : Draft}

/-- An event is announced if it is the one just announced or was announced before. -/
theorem announced_announce {target t : Callback} :
    (D.announce target).Announced t ↔ t = target ∨ D.Announced t := by
  classical
  rw [Announced, announce, SortedMap.get?_insert]
  split
  next h => simp [h]
  next h => simp [h, Announced]

/-- A rise is announced. -/
theorem rise_cases {a : AccountId} {before after : Status}
    (rises : after = before ∨ before < after) :
    (D.rise a before after).records = D.records ∧
      (after = before ∧ (D.rise a before after).callbacks = D.callbacks ∨
        before < after ∧
          (D.rise a before after).callbacks = D.callbacks.insert ⟨a, .statusUpdated⟩ ()) := by
  rw [rise]
  split
  next hlt => exact ⟨rfl, .inr ⟨hlt, rfl⟩⟩
  next hnot => exact ⟨rfl, .inl ⟨rises.resolve_right hnot, rfl⟩⟩

/-- Where nothing happens no tier rises. -/
theorem Heralds.refl (D : Draft) : D.Heralds D := fun _ => .inl ⟨rfl, Iff.rfl⟩

/-- Tiers may rise in two parts, and each rise is announced in one of them. -/
theorem Heralds.trans (h : D.Heralds D₁) (h' : D₁.Heralds D') : D.Heralds D' := by
  intro b
  obtain ⟨hsame, hcalled⟩ | ⟨r, r₁, hr, hr₁, hlt, hcalled⟩ := h b
  · obtain ⟨hsame', hcalled'⟩ | ⟨r₁, r', hr₁, hr', hlt', hcalled'⟩ := h' b
    · exact .inl ⟨hsame'.trans hsame, hcalled'.trans hcalled⟩
    · rw [hr₁, Option.map_some] at hsame
      obtain ⟨r, hr, hstatus⟩ := Option.map_eq_some_iff.mp hsame.symm
      exact .inr ⟨r, r', hr, hr', hstatus ▸ hlt', hcalled'⟩
  · obtain ⟨hsame', hcalled'⟩ | ⟨r₁', r', hr₁', hr', hlt', hcalled'⟩ := h' b
    · rw [hr₁, Option.map_some] at hsame'
      obtain ⟨r', hr', hstatus⟩ := Option.map_eq_some_iff.mp hsame'
      exact .inr ⟨r, r', hr, hr', hstatus ▸ hlt, hcalled'.mpr hcalled⟩
    · obtain rfl := Option.some.inj (hr₁.symm.trans hr₁')
      exact .inr ⟨r, r', hr, hr', Nat.lt_trans hlt hlt', hcalled'⟩

end Draft

/-! ### Status checks -/

namespace Cascade

open Draft (Heralds)
open Roster (parentOf ancestor?)

variable {α β : Type} {D D' : Draft} {now : Timestamp} {checkAt : Option Timestamp} {a b : AccountId}
  {r r' : Record} {delta : Int} {bound : Nat} {u : Unit}

/-- **A status check announces** a tier if it rises, and nothing else. -/
theorem announced_of_yields_check (h : (check checkAt a r).Yields D r' D') :
    D'.records = D.records ∧
      (r'.status = r.status ∧ D'.callbacks = D.callbacks ∨
        r.status < r'.status ∧ D'.callbacks = D.callbacks.insert ⟨a, .statusUpdated⟩ ()) := by
  cases checkAt with
  | none =>
      obtain ⟨rfl, rfl⟩ := yields_done.mp h
      exact ⟨rfl, .inl ⟨rfl, rfl⟩⟩
  | some now =>
      cases yields_refresh.mp h with
      | met | canceled => exact Draft.rise_cases (climb_eq_or_lt r r.status)
      | waiting | failing => exact ⟨rfl, .inl ⟨rfl, rfl⟩⟩

/-- **An update announces** the tier of its record if it rises, and nothing else, if its change does not
show. -/
theorem announced_of_yields_update {change : Record → Cascade (β × Record)} (unseen : Unseen change)
    {result : Option β} (h : (update checkAt a change).Yields D result D') :
    D.Heralds D' ∧ (D'.Announced ⟨b, .stakeChanged⟩ ↔ D.Announced ⟨b, .stakeChanged⟩) := by
  classical
  obtain ⟨-, -, rfl⟩ | ⟨r, x, r₁, D₁, r₂, D₂, hr, hchange, hcheck, -, rfl⟩ := steps_of_yields_update h
  · exact ⟨.refl D', Iff.rfl⟩
  · obtain ⟨rfl, hposting⟩ := unseen D r.normalize x r₁ D₁ hchange
    have hstatus : r₁.status = r.status := congrArg Prod.fst hposting
    obtain ⟨hrecords, hcases⟩ := announced_of_yields_check hcheck
    have hput : ∀ c, (D₂.toLedger.put a r₂).records.get? c =
        if c = a then some r₂ else D₁.records.get? c := by
      intro c
      rw [Ledger.put, SortedMap.get?_insert, hrecords]
    have hsame : (D₂.withLedger (D₂.toLedger.put a r₂)).callbacks = D₂.callbacks := rfl
    refine ⟨fun c => ?_, ?_⟩
    · rw [Draft.Announced, Draft.Announced, hsame, Draft.toLedger_withLedger, hput c]
      obtain ⟨heq, hcallbacks⟩ | ⟨hlt, hcallbacks⟩ := hcases
      · rw [hcallbacks]
        refine .inl ⟨?_, Iff.rfl⟩
        split
        next hc => rw [hc, hr, Option.map_some, Option.map_some, heq, hstatus]
        next => rfl
      · by_cases hc : c = a
        · rw [hc, if_pos rfl, hr, hcallbacks, SortedMap.get?_insert_self]
          exact .inr ⟨r, r₂, rfl, rfl, hstatus ▸ hlt, by simp⟩
        · rw [if_neg hc, hcallbacks, SortedMap.get?_insert_of_ne]
          · exact .inl ⟨rfl, Iff.rfl⟩
          · simpa using hc
    · rw [Draft.Announced, Draft.Announced, hsame]
      obtain ⟨-, hcallbacks⟩ | ⟨-, hcallbacks⟩ := hcases
      · rw [hcallbacks]
      · rw [hcallbacks, SortedMap.get?_insert_of_ne _ _ (by simp)]

/-! ### Tiers -/

/-- Cascades made of adjustments announce the tiers that rise. -/
theorem closed_heralding : Closed fun _ c => ∀ D a D', c.Yields D a D' → D.Heralds D' where
  done a D b D' h := by
    obtain ⟨-, rfl⟩ := yields_done.mp h
    exact .refl D'
  bind hc hf D b D' h := by
    obtain ⟨a, D₁, hfirst, hrest⟩ := yields_bind.mp h
    exact (hc D a D₁ hfirst).trans (hf a D₁ b D' hrest)
  announce a D u D' h := by
    obtain rfl := yields_announce.mp h
    intro b
    exact .inl ⟨rfl, Draft.announced_announce.trans (or_iff_right (by simp))⟩
  cycle a D u D' h := (yields_fail.mp h).elim
  adjust h _ a _ _ _ hupdate := (announced_of_yields_update (b := a) h.unseen hupdate).1

/-- **A stake change announces the tiers that rise.** -/
theorem heralds_of_yields_changeStake (h : (changeStake now a delta bound).Yields D u D') :
    D.Heralds D' :=
  closed_heralding.changeStake bound
    (fun _ _ _ hself => (announced_of_yields_update (b := a) (unseen_addSelfStake delta) hself).1)
    D u D' h

/-! ### Stakes -/

/-- Cascades that only adjust records announce no changed stake. -/
theorem composed_discreet : Composed fun _ c => ∀ D a D', c.Yields D a D' →
    ∀ b, D'.Announced ⟨b, .stakeChanged⟩ ↔ D.Announced ⟨b, .stakeChanged⟩ where
  done a D x D' h b := by
    obtain ⟨-, rfl⟩ := yields_done.mp h
    rfl
  bind hc hf D x D' h b := by
    obtain ⟨a, D₁, hfirst, hrest⟩ := yields_bind.mp h
    exact (hf a D₁ x D' hrest b).trans (hc D a D₁ hfirst b)
  adjust h _ _ _ _ _ hupdate _ := (announced_of_yields_update h.unseen hupdate).2

/-- An account is announced on a condition, and others later. -/
theorem announced_of_yields_announce_if {p : Prop} [Decidable p] {rest : Unit → Cascade α} {x : α}
    {S : Prop} (h : (if p then announce a .stakeChanged >>= rest else rest ()).Yields D x D')
    (later : ∀ D₁ : Draft, D₁.toLedger = D.toLedger → (rest ()).Yields D₁ x D' →
      (D'.Announced ⟨b, .stakeChanged⟩ ↔ D₁.Announced ⟨b, .stakeChanged⟩ ∨ p ∧ S)) :
    D'.Announced ⟨b, .stakeChanged⟩ ↔ D.Announced ⟨b, .stakeChanged⟩ ∨ p ∧ (a = b ∨ S) := by
  split at h
  next hp =>
      obtain ⟨⟨⟩, D₁, hannounce, hrest⟩ := yields_bind.mp h
      obtain rfl := yields_announce.mp hannounce
      rw [later (D.announce _) rfl hrest, Draft.announced_announce]
      simp only [Callback.mk.injEq, and_true]
      tauto
  next hp =>
      rw [later D rfl h]
      tauto

/-- The accounts from one on upwards are the account and those from its referrer on. -/
theorem exists_ancestor?_iff {m : Roster} :
    (∃ g, ancestor? m g a = some b) ↔ a = b ∨ ∃ g, (parentOf m a).bind (ancestor? m g) = some b := by
  constructor
  · rintro ⟨_ | g, hg⟩
    · exact .inl (Option.some.inj hg)
    · exact .inr ⟨g, hg⟩
  · rintro (rfl | ⟨g, hg⟩)
    · exact ⟨0, rfl⟩
    · exact ⟨g + 1, hg⟩

/-- **The walk over the ancestors announces** each of them, unless nothing changes. -/
theorem announced_of_yields_raiseTeams {start : Option AccountId} (full : Roster.Full D.records)
    (h : (raiseTeams now delta bound start).Yields D u D') :
    D'.Announced ⟨b, .stakeChanged⟩ ↔ D.Announced ⟨b, .stakeChanged⟩ ∨
      delta ≠ 0 ∧ ∃ g, start.bind (ancestor? D.records g) = some b := by
  induction bound generalizing start D with
  | zero =>
      cases start with
      | none =>
          obtain ⟨-, rfl⟩ := yields_done.mp h
          simp
      | some ancestor => exact absurd h (by simp [raiseTeams])
  | succ bound ih =>
      cases start with
      | none =>
          obtain ⟨-, rfl⟩ := yields_done.mp h
          simp
      | some ancestor =>
          obtain ⟨parent, D₁, hupdate, hrest⟩ := yields_bind.mp h
          have hannounced :=
            (announced_of_yields_update (b := b) (Adjusts.addTeamStake delta).unseen hupdate).2
          have hwalk := walk_update (plain_addTeamStake now delta) full hupdate
          have hparents : parentOf D₁.records = parentOf D.records := Roster.parentOf_walk hwalk
          have hparent : parent.join = parentOf D.records ancestor := by
            obtain ⟨hnone, rfl, -⟩ | ⟨r, x, r₁, D₀, r₂, L₂, hr, hchange, -, rfl, -⟩ :=
              yields_update hupdate
            · rw [parentOf, hnone]
              rfl
            · obtain ⟨-, rfl, -⟩ := yields_addTeamStake hchange
              rw [Roster.parentOf_of_get? hr]
              rfl
          simp only [Option.bind_some]
          rw [← hannounced, exists_ancestor?_iff, ← hparent, ← Roster.ancestor?_congr hparents]
          refine announced_of_yields_announce_if hrest fun D₂ hD₂ hlater => ?_
          rw [← hD₂]
          exact ih (hD₂ ▸ hwalk.full full) hlater

/-- **A stake change announces the account and all its ancestors**, unless nothing changes. -/
theorem announced_of_yields_changeStake (full : Roster.Full D.records)
    (found : D.records.get? a = some r) (h : (changeStake now a delta bound).Yields D u D') :
    D'.Announced ⟨b, .stakeChanged⟩ ↔ D.Announced ⟨b, .stakeChanged⟩ ∨
      delta ≠ 0 ∧ ∃ g, ancestor? D.records g a = some b := by
  obtain ⟨result, D₁, hupdate, hrest⟩ := yields_bind.mp h
  have hannounced := (announced_of_yields_update (b := b) (unseen_addSelfStake delta) hupdate).2
  have hwalk := walk_update (P := fun _ _ _ => True) (plain_addSelfStake delta) full hupdate
  have hparents : parentOf D₁.records = parentOf D.records := Roster.parentOf_walk hwalk
  obtain ⟨hnone, -, -⟩ | ⟨r', x, r₁, D₀, r₂, L₂, hr, hchange, -, rfl, -⟩ := yields_update hupdate
  · exact absurd (hnone.symm.trans found) (by simp)
  · obtain rfl := Option.some.inj (found.symm.trans hr)
    rw [Record.normalize_of_length (full a _ found).ge] at hchange
    obtain ⟨rfl, stake, -, rfl, rfl⟩ := yields_addSelfStake hchange
    rw [← hannounced, exists_ancestor?_iff, Roster.parentOf_of_get? found,
      ← Roster.ancestor?_congr hparents]
    refine announced_of_yields_announce_if hrest fun D₂ hD₂ hlater => ?_
    obtain ⟨_, D₃, hraise, hlater⟩ := yields_bind.mp hlater
    have hraised := announced_of_yields_raiseTeams (b := b) (hD₂ ▸ hwalk.full full) hraise
    rw [hD₂] at hraised
    rw [← hraised]
    split at hlater
    · exact composed_discreet.setActive _ _ _ D₃ _ D' hlater b
    · obtain ⟨-, rfl⟩ := yields_done.mp hlater
      rfl

end Cascade

/-! ### Listeners -/

/-- One listener to each event, neither of which fails. -/
def Subscription.attendants : List Subscription :=
  [⟨.stakeChanged, fun _ => none⟩, ⟨.statusUpdated, fun _ => none⟩]

/-- **A host with one listener to each event**, neither of which fails. -/
def Host.attended (host : Host) : Host := host.subscribed Subscription.attendants

/-- **The accounts that the listeners to an event were called about**, call by call. -/
def World.heard (w : World) (event : Event) : List AccountId :=
  (w.hearings.filter (·.event = event)).map (·.account)

/-- What an attendant notes when it is called about an event. -/
def Callback.hearing (target : Callback) : Hearing :=
  ⟨target.event.rank, target.event, target.account, none⟩

/-- One call of an attendant is due for each event. -/
theorem Delivery.due_attendants (target : Callback) :
    due Subscription.attendants target = [⟨target.event.rank, target, none⟩] := by
  obtain ⟨account, event⟩ := target
  cases event <;> rfl

/-- **A cascade that is carried out** where each event has a listener: each of its events is heard once. -/
theorem World.Keeps.run_commit_attended {α : Type} {w : World} {L : Ledger} {c : Cascade α} {x : α}
    {D : Draft} (h : w.Keeps L) (yields : c.Yields L.draft x D) (full : Roster.Full D.records)
    (host : Host) :
    ∃ w', w.run (c.commit host.attended) = (.ok x, w') ∧ w'.Keeps D.toLedger ∧
      w'.log = w.log ++ D.notices.map Entry.notice ++
        D.callbacks.keys.map fun target => .hearing target.hearing := by
  obtain ⟨w₁, hkeeps, hlog, hrun⟩ := h.exists_run_commit yields full
  have hdue : ∀ order : List Callback, order.flatMap (Delivery.due Subscription.attendants) =
      order.map fun target => ⟨target.event.rank, target, none⟩ := by
    intro order
    rw [List.map_eq_flatMap]
    exact List.flatMap_congr fun target _ => Delivery.due_attendants target
  obtain ⟨made, result, hdeliver, hdelivered⟩ :=
    w₁.run_deliver (D.callbacks.keys.flatMap (Delivery.due Subscription.attendants))
  obtain ⟨rfl, rfl⟩ := hdelivered.of_succeed fun d hd => by
    rw [hdue] at hd
    obtain ⟨target, -, rfl⟩ := List.mem_map.mp hd
    rfl
  refine ⟨{ w₁ with log := w₁.log ++
    (D.callbacks.keys.flatMap (Delivery.due Subscription.attendants)).map Delivery.entry }, ?_,
    ⟨hkeeps.free, hkeeps.stored⟩, ?_⟩
  · rw [hrun, ← D.callbacks.map_keys_unit, Host.attended, Host.announceAll_subscribed]
    exact World.run_bind_of_ok hdeliver _
  · rw [hdue, List.map_map, hlog]
    rfl

/-- Who is heard of, where each event of a draft is heard once. -/
theorem World.mem_heard_iff {w : World} {D : Draft} {ns : List Notice} (h : w.log =
    ns.map Entry.notice ++ D.callbacks.keys.map fun target => .hearing target.hearing) (event : Event) :
    (w.heard event).Nodup ∧ ∀ b, b ∈ w.heard event ↔ D.Announced ⟨b, event⟩ := by
  have hheard : w.heard event =
      (D.callbacks.keys.filter (·.event = event)).map Callback.account := by
    simp [heard, hearings, h, List.filterMap_map, Function.comp_def, List.filter_map, Callback.hearing]
  constructor
  · rw [hheard]
    refine (D.callbacks.nodup_keys.filter _).map_on fun s hs t ht hst => ?_
    obtain ⟨a, e⟩ := s
    obtain ⟨b, e'⟩ := t
    have he : e = event := by simpa using (List.mem_filter.mp hs).2
    have he' : e' = event := by simpa using (List.mem_filter.mp ht).2
    obtain rfl : a = b := hst
    rw [he, he']
  · intro b
    rw [hheard, Draft.Announced, ← SortedMap.mem_keys_iff]
    constructor
    · intro hb
      obtain ⟨⟨a, e⟩, htarget, rfl⟩ := List.mem_map.mp hb
      obtain ⟨hmem, he⟩ := List.mem_filter.mp htarget
      obtain rfl : e = event := by simpa using he
      exact hmem
    · intro hb
      exact List.mem_map.mpr ⟨⟨b, event⟩, List.mem_filter.mpr ⟨hb, by simp⟩, rfl⟩

/-! ### Histories -/

/-- **Who is heard of when a stake changes.** A change of the stake of an account of the forest that
succeeds is told to listeners to stakes about the account and each of its ancestors, or about nobody if
nothing changes, and to listeners to tiers about each account whose tier is another one than before. -/
def Store.Announces (store : Store) : Prop :=
  ∀ (host : Host) (now : Timestamp) (a : AccountId) (delta : Int) (w : World), store.Registered a →
    Turn.outcome host.attended ⟨now, .changeStake a delta⟩ store = (.ok (), w) →
    ∃ m m' : Roster, store.Holds m ∧ w.store.Holds m' ∧
      (w.heard .stakeChanged).Nodup ∧
      (∀ b, b ∈ w.heard .stakeChanged ↔ delta ≠ 0 ∧ ∃ g, m.ancestor? g a = some b) ∧
      (w.heard .statusUpdated).Nodup ∧
      ∀ b, b ∈ w.heard .statusUpdated ↔
        (m'.get? b).map Record.status ≠ (m.get? b).map Record.status

/-- A stake change on a store that keeps a ledger. -/
theorem Forest.announces_of_keeps {store : Store} {L : Ledger} (keeps : (World.ofStore store).Keeps L) :
    store.Announces := by
  intro host now a delta w registered success
  obtain ⟨w₁, hrun, hfree, hview, hlog⟩ := World.log_of_transact_eq keeps.free success
  have hfull := keeps.stored.full
  obtain ⟨r, found⟩ := Option.isSome_iff_exists.mp ((registered_iff keeps).mp registered)
  have hcommit : World.run { World.ofStore store with store := store.branch }
      ((Cascade.changeStake now a delta store.branch.size).commit host.attended) = (.ok (), w₁) :=
    (World.run_changeStake _).symm.trans hrun
  have hcascade : ∀ D, (Cascade.changeStake now a delta store.branch.size).Yields L.draft () D →
      Roster.Full D.records := fun D hD => (Cascade.walk_changeStake hfull hD).full hfull
  obtain ⟨D, yields, -⟩ :=
    keeps.branch.of_run_commit (host.quiet_subscribed Subscription.attendants) hcascade hcommit
  obtain ⟨w₂, hrun₂, hkeeps₂, hlog₂⟩ := keeps.branch.run_commit_attended yields (hcascade D yields) host
  obtain ⟨-, rfl⟩ := Prod.mk.inj (hcommit.symm.trans hrun₂)
  have hnone : ∀ target, ¬ L.draft.Announced target := fun target h =>
    h (by simp [Ledger.draft])
  have hevents := fun event => World.mem_heard_iff (hlog.trans hlog₂) event
  refine ⟨L.records, D.records, holds_of_keeps keeps,
    holds_of_keeps ⟨hfree, hview.symm ▸ hkeeps₂.stored⟩, (hevents .stakeChanged).1, fun b => ?_,
    (hevents .statusUpdated).1, fun b => ?_⟩
  · rw [(hevents .stakeChanged).2, Cascade.announced_of_yields_changeStake hfull found yields]
    exact or_iff_right (hnone _)
  · rw [(hevents .statusUpdated).2]
    obtain ⟨hsame, hcalled⟩ | ⟨r, r', hr, hr', hlt, hcalled⟩ :=
      Cascade.heralds_of_yields_changeStake yields b
    · exact iff_of_false (fun h => hnone _ (hcalled.mp h)) fun h => h hsame
    · refine iff_of_true hcalled fun hsame => ?_
      rw [hr', show SortedMap.get? L.records b = some r from hr] at hsame
      obtain hstatus : r'.status = r.status := Option.some.inj hsame
      exact Status.lt_irrefl r.status (hstatus ▸ hlt)

/-- **Stake changes announce** the accounts they touch and the tiers they change, after every history. -/
theorem Forest.announces_after {host : Host} (quiet : host.Quiet) (turns : List Turn) :
    (Forest.after host turns).Announces := by
  obtain ⟨L, hkeeps, -, -⟩ := after_induction quiet (I := fun _ _ => True) trivial
    (fun _ _ _ _ _ _ _ => trivial) (fun _ _ _ _ _ _ _ _ _ _ _ _ => trivial) turns
  exact announces_of_keeps hkeeps

/-- After the small history stake changes announce whom they touch, and the withdrawal of all stake of
the referral is heard of twice. -/
theorem Forest.announces_after_small :
    Host.standalone.Quiet ∧ (Forest.after Host.standalone SmallHistory.turns).Announces ∧
    ((Turn.outcome Host.standalone.attended ⟨⟨1000⟩, .changeStake SmallHistory.leaf (-100000000)⟩
      (Forest.after Host.standalone SmallHistory.turns)).2.heard .stakeChanged) =
        [SmallHistory.leaf, SmallHistory.root] :=
  ⟨Host.quiet_standalone, announces_after Host.quiet_standalone SmallHistory.turns, by decide +kernel⟩

end ReferralForest

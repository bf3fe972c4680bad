import ReferralForest.Proofs.Forest.Lineage

/-!
# Whom a Cascade Reaches

A cascade of stakes or of activity that begins at an account goes from referrals to their referrers and
never elsewhere. So it stays within every set of accounts that holds, with an account, its referrer:
beyond such a set the records and the queue entries are as they were, and relations and parameters are
as they were anyway.

## Main definitions

* `Roster.Upward` — a set of accounts that holds, with an account, its referrer.
* `Ledger.SameBeyond` — a ledger is the same beyond a set of accounts.

## Main statements

* `Cascade.sameBeyond_setActive`, `Cascade.sameBeyond_changeStake` — cascades stay within upward sets.
* `Ledger.StoredIn.of_get?_ne` — the keys whose values differ belong to accounts of the set.
-/

namespace ReferralForest

/-- **A set of accounts that holds, with an account, its referrer.** -/
def Roster.Upward (m : Roster) (S : Set AccountId) : Prop :=
  ∀ a ∈ S, ∀ p, parentOf m a = some p → p ∈ S

/-- Only the referrers decide which sets are upward. -/
theorem Roster.Upward.congr {m m' : Roster} {S : Set AccountId} (h : m.Upward S)
    (same : parentOf m' = parentOf m) : m'.Upward S := by
  rw [Upward, same]
  exact h

/-- An account and all that are above it. -/
def Roster.upward (m : Roster) (a : AccountId) : Set AccountId :=
  {b | ∃ g, ancestor? m g a = some b}

/-- An account is among those that are it or above it. -/
theorem Roster.mem_upward_self (m : Roster) (a : AccountId) : a ∈ upward m a := ⟨0, rfl⟩

/-- Who is above somebody above an account is above the account. -/
theorem Roster.upward_upward (m : Roster) (a : AccountId) : m.Upward (upward m a) := by
  rintro b ⟨g, hg⟩ p hp
  exact ⟨g + 1, by rw [ancestor?_succ, hg, Option.bind_some, hp]⟩

/-- **A ledger is the same beyond a set of accounts.** -/
structure Ledger.SameBeyond (S : Set AccountId) (L L' : Ledger) : Prop where
  /-- The records of others are. -/
  records : ∀ b ∉ S, L'.records.get? b = L.records.get? b
  /-- The queue entries of others are. -/
  queue : ∀ b ∉ S, ∀ t, (t, b) ∈ L'.queue ↔ (t, b) ∈ L.queue
  /-- The relations are. -/
  relations : L'.relations = L.relations
  /-- The parameters are. -/
  params : L'.params = L.params

namespace Ledger

variable {S : Set AccountId} {L L₁ L' : Ledger} {a : AccountId}

namespace SameBeyond

/-- A ledger is the same as itself beyond any set. -/
theorem refl (S : Set AccountId) (L : Ledger) : L.SameBeyond S L :=
  ⟨fun _ _ => rfl, fun _ _ _ => Iff.rfl, rfl, rfl⟩

/-- What is the same beyond a set at each of two steps is the same after both. -/
theorem trans (h : L.SameBeyond S L₁) (h' : L₁.SameBeyond S L') : L.SameBeyond S L' where
  records b hb := (h'.records b hb).trans (h.records b hb)
  queue b hb t := (h'.queue b hb t).trans (h.queue b hb t)
  relations := h'.relations.trans h.relations
  params := h'.params.trans h.params

/-- Writing a record within the set. -/
theorem put (ha : a ∈ S) (r : Record) : L.SameBeyond S (L.put a r) where
  records _ hb := SortedMap.get?_insert_of_ne _ _ fun e => hb (e.symm ▸ ha)
  queue _ _ _ := Iff.rfl
  relations := rfl
  params := rfl

end SameBeyond

/-- Settling a record within the set. -/
theorem Settles.sameBeyond {checkAt : Option Timestamp} {r r' : Record}
    (h : L.Settles a checkAt r r' L') (ha : a ∈ S) : L.SameBeyond S L' where
  records _ _ := by rw [h.records_eq]
  queue b hb t := by
    have hne : b ≠ a := fun e => hb (e.symm ▸ ha)
    exact h.mem_queue_of_ne hne t
  relations := h.relations_eq
  params := h.params_eq

/-- **The keys whose values differ** between two stored ledgers that are the same beyond a set are those
of records and of queue entries of accounts in the set. -/
theorem StoredIn.of_get?_ne {m m' : SortedMap Key Value} (h : L.StoredIn m) (h' : L'.StoredIn m')
    (same : L.SameBeyond S L') {k : Key} (differs : m'.get? k ≠ m.get? k) :
    ∃ b ∈ S, k = (Slot.record b).key ∨ ∃ t, k = (Slot.downgrade t b).key := by
  classical
  obtain ⟨slot, rfl⟩ : ∃ slot : Slot, slot.key = k := by
    cases hv : m.get? k with
    | some v => exact h.only k v hv
    | none =>
        obtain ⟨v, hv'⟩ := Option.ne_none_iff_exists'.mp (hv ▸ differs)
        exact h'.only k v hv'
  rw [h.value, h'.value] at differs
  cases slot with
  | record b =>
      refine ⟨b, ?_, .inl rfl⟩
      by_contra hb
      exact differs (congrArg (Option.map Record.encode) (same.records b hb))
  | downgrade t b =>
      refine ⟨b, ?_, .inr ⟨t, rfl⟩⟩
      by_contra hb
      exact differs (if_congr (same.queue b hb t) rfl rfl)
  | relation p c => exact absurd (by rw [value?, value?, same.relations]) differs
  | params => exact absurd (congrArg (Option.map Params.encode) same.params) differs

end Ledger

namespace Cascade

open Ledger Roster

variable {β : Type} {S : Set AccountId} {D D' : Draft} {a b : AccountId} {checkAt : Option Timestamp}
  {now : Timestamp} {delta : Int} {u : Unit}

/-! ### Updates -/

/-- An update of an account in the set. -/
theorem sameBeyond_update {Q : Record → Record → Prop} {change : Record → Cascade (β × Record)}
    {result : Option β} (plain : Plain Q change) (ha : a ∈ S)
    (h : (update checkAt a change).Yields D result D') : D.toLedger.SameBeyond S D'.toLedger := by
  obtain ⟨-, -, rfl⟩ | ⟨r, x, r₁, D₁, r₂, L₂, -, hchange, settles, -, hD'⟩ := yields_update h
  · exact .refl S _
  · obtain ⟨hledger, -, -⟩ := plain D r.normalize x r₁ D₁ hchange
    rw [hledger] at settles
    rw [hD']
    exact (settles.sameBeyond ha).trans (.put ha r₂)

/-- An update moves nobody. -/
theorem parentOf_of_yields_update {Q : Record → Record → Prop} {change : Record → Cascade (β × Record)}
    {result : Option β} (plain : Plain Q change) (full : Full D.records)
    (h : (update checkAt a change).Yields D result D') :
    parentOf D'.records = parentOf D.records := by
  have hplain : Plain (fun _ _ => True) change := by
    intro D r x r' D' hchange
    obtain ⟨hledger, hedits, -⟩ := plain D r x r' D' hchange
    exact ⟨hledger, hedits, trivial⟩
  exact parentOf_walk (walk_update (P := fun _ _ _ => True) hplain full h)

/-- Raising a team stake gives the referrer. -/
theorem join_of_yields_addTeamStake {parent : Option (Option AccountId)} (full : Full D.records)
    (h : (update (some now) b (addTeamStake delta)).Yields D parent D') :
    parent.join = parentOf D.records b := by
  obtain ⟨hnone, rfl, -⟩ | ⟨r, p, r₁, D₁, s, t, hr, hchange, rfl, -⟩ :=
    records_of_update (plain_addTeamStake now delta) full h
  · rw [parentOf, hnone]
    rfl
  · obtain ⟨-, rfl, -⟩ := yields_addTeamStake hchange
    rw [parentOf_of_get? hr, Option.join_some]

/-- Counting a descendant gives the referrer as the next ancestor. -/
theorem next_of_yields_countDescendant {generation : Nat} {stride : Stride} (full : Full D.records)
    (h : (update checkAt b (countDescendant generation delta)).Yields D (some stride) D') :
    stride.next = parentOf D.records b := by
  obtain ⟨-, hnone, -⟩ | ⟨r, found, r₁, D₁, s, t, hr, hchange, hfound, -⟩ :=
    records_of_update (Q := Edit.counts checkAt checkAt) (plain_countDescendant generation delta) full h
  · contradiction
  · obtain rfl := Option.some.inj hfound
    obtain ⟨-, hshift, rfl⟩ := yields_countDescendant hchange
    obtain ⟨counter, moved, -, -, rfl⟩ := shiftGeneration?_eq_some hshift
    exact (parentOf_of_get? hr).symm

/-- Counting a child gives the referrer of its parent, or nobody. -/
theorem join_of_yields_countChild {child : Flip} {active : Bool} {crossed : Option (Option AccountId)}
    (full : Full D.records)
    (h : (update checkAt b (countChild child active delta)).Yields D crossed D') {p : AccountId}
    (hp : crossed.join = some p) : parentOf D.records b = some p := by
  obtain ⟨-, rfl, -⟩ | ⟨r, found, r₁, D₁, s, t, hr, hchange, rfl, -⟩ :=
    records_of_update (Q := Edit.counts checkAt checkAt) (plain_countChild child active delta) full h
  · contradiction
  · obtain ⟨-, tallies, -, -, rfl⟩ := yields_countChild hchange
    rw [Option.join_some, Option.ite_none_right_eq_some] at hp
    rw [parentOf_of_get? hr, hp.2]

/-! ### Cascades -/

/-- Raising the team stakes from an account of the set on. -/
theorem sameBeyond_raiseTeams {bound : Nat} {start : Option AccountId} (full : Full D.records)
    (up : D.records.Upward S) (within : ∀ b, start = some b → b ∈ S)
    (h : (raiseTeams now delta bound start).Yields D u D') :
    D.toLedger.SameBeyond S D'.toLedger := by
  induction bound generalizing start D with
  | zero =>
      cases start with
      | none => exact (yields_done.mp h).2 ▸ .refl S _
      | some ancestor => exact absurd h (by simp [raiseTeams])
  | succ bound ih =>
      cases start with
      | none => exact (yields_done.mp h).2 ▸ .refl S _
      | some ancestor =>
          obtain ⟨parent, D₁, D₂, hupdate, hD₂, hrest⟩ := yields_raiseTeams_succ h
          have hrecords₂ : D₂.records = D₁.records := congrArg Ledger.records hD₂
          have hplain := plain_addTeamStake now delta
          have hstart := within ancestor rfl
          have hup : D₂.records.Upward S := up.congr <| by
            rw [hrecords₂, parentOf_of_yields_update hplain full hupdate]
          have hfull : Full D₂.records := hrecords₂ ▸ (walk_update hplain full hupdate).full full
          have hparent := join_of_yields_addTeamStake full hupdate
          have hrest := ih hfull hup (fun b hb => up ancestor hstart b (hparent.symm.trans hb)) hrest
          rw [hD₂] at hrest
          exact (sameBeyond_update hplain hstart hupdate).trans hrest

/-- The ripple to an account of the set. -/
theorem sameBeyond_ripples {active : Bool} {crossed : Option AccountId}
    (within : ∀ b, crossed = some b → b ∈ S) (h : Ripples checkAt active crossed D D') :
    D.toLedger.SameBeyond S D'.toLedger := by
  cases crossed with
  | none => exact (show D' = D from h) ▸ .refl S _
  | some grandparent =>
      obtain ⟨v, hupdate⟩ := h
      exact sameBeyond_update (Q := Edit.counts checkAt checkAt) (plain_countByThree _)
        (within grandparent rfl) hupdate

/-- The correction at an account of the set. -/
theorem sameBeyond_corrects {stride : Stride} (within : ∀ b, stride.next = some b → b ∈ S)
    (h : stride.Corrects checkAt D D') : D.toLedger.SameBeyond S D'.toLedger := by
  obtain ⟨_ | next, _ | ⟨before, after⟩⟩ := stride
  case some.some =>
      obtain ⟨v, hupdate⟩ := h
      exact sameBeyond_update (Q := Edit.counts checkAt checkAt) (plain_reclassify before after)
        (within next rfl) hupdate
  all_goals exact (show D' = D from h) ▸ .refl S _

/-- Counting a flip in the generations from an account of the set on. -/
theorem sameBeyond_countGenerations {levels generation : Nat} {start : Option AccountId}
    (full : Full D.records) (up : D.records.Upward S) (within : ∀ b, start = some b → b ∈ S)
    (h : (countGenerations checkAt delta levels generation start).Yields D u D') :
    D.toLedger.SameBeyond S D'.toLedger := by
  induction levels generalizing generation start D with
  | zero => exact (yields_done.mp h).2 ▸ .refl S _
  | succ levels ih =>
      cases start with
      | none => exact (yields_done.mp h).2 ▸ .refl S _
      | some ancestor =>
          obtain ⟨result, D₁, hupdate, hrest⟩ := yields_countGenerations_succ h
          have hplain : Plain (Edit.counts checkAt checkAt) _ := plain_countDescendant generation delta
          have hwalk := walk_update hplain full hupdate
          have hstart := within ancestor rfl
          have hself := sameBeyond_update hplain hstart hupdate
          obtain ⟨-, rfl⟩ | ⟨stride, D₂, rfl, hcorrects, hrest⟩ := hrest
          · exact hself
          · have hnext : ∀ b, stride.next = some b → b ∈ S := fun b hb =>
              up ancestor hstart b ((next_of_yields_countDescendant full hupdate).symm.trans hb)
            have hboth : Walk (Edit.counts checkAt) D.toLedger D₂.toLedger :=
              hwalk.trans (walk_corrects (hwalk.full full) hcorrects)
            have hup : D₂.records.Upward S := up.congr (parentOf_walk hboth)
            exact hself.trans ((sameBeyond_corrects hnext hcorrects).trans
              (ih (hboth.full full) hup hnext hrest))

/-- **A spreading flip** of a referral of an account of the set. -/
theorem sameBeyond_spread {active : Bool} {child : Flip} {parent : AccountId} (full : Full D.records)
    (up : D.records.Upward S) (within : parent ∈ S)
    (h : Spread checkAt active child parent D D') : D.toLedger.SameBeyond S D'.toLedger := by
  obtain ⟨hcount, hripple, hclimb⟩ := h
  next D₁ D₂ crossed u =>
      have hplain : Plain (Edit.counts checkAt checkAt) _ :=
        plain_countChild child active (flipSign active)
      have hwalk := walk_update hplain full hcount
      have hboth : Walk (Edit.counts checkAt) D.toLedger D₂.toLedger :=
        hwalk.trans (walk_ripples (hwalk.full full) hripple)
      have hup : D₂.records.Upward S := up.congr (parentOf_walk hboth)
      have hcrossed : ∀ b, crossed.join = some b → b ∈ S := fun b hb =>
        up parent within b (join_of_yields_countChild full hcount hb)
      exact (sameBeyond_update hplain within hcount).trans ((sameBeyond_ripples hcrossed hripple).trans
        (sameBeyond_countGenerations (hboth.full full) hup
          (fun b hb => Option.some.inj hb ▸ within) hclimb))

/-- **Making an account of the set active or inactive** stays within the set. -/
theorem sameBeyond_setActive {active : Bool} (full : Full D.records) (up : D.records.Upward S)
    (within : a ∈ S) (h : (setActive checkAt a active).Yields D u D') :
    D.toLedger.SameBeyond S D'.toLedger := by
  obtain ⟨heq, -⟩ | ⟨r, r₁, D₁, hr, -, hshift, hD₁, hrest⟩ := yields_setActive full.padded h
  · exact heq ▸ .refl S _
  · obtain ⟨counter, moved, -, -, rfl⟩ := shiftGeneration?_eq_some hshift
    have hself : D.toLedger.SameBeyond S D₁.toLedger := hD₁ ▸ .put within _
    obtain ⟨-, rfl⟩ | ⟨parent, hparent, hspread⟩ := hrest
    · exact hself
    · have hrecords : D₁.records = _ := congrArg Ledger.records hD₁
      have hup : D₁.records.Upward S := up.congr <| by
        rw [hrecords]
        exact parentOf_insert hr rfl
      have hfull : Full D₁.records := by
        rw [hrecords]
        exact full.insert (List.length_set.trans (full a r hr))
      have hplace : parent ∈ S := up a within parent ((parentOf_of_get? hr).trans hparent)
      exact hself.trans (sameBeyond_spread hfull hup hplace hspread)

/-- **A stake change** of an account of the set stays within the set. -/
theorem sameBeyond_changeStake {bound : Nat} (full : Full D.records) (up : D.records.Upward S)
    (within : a ∈ S) (h : (changeStake now a delta bound).Yields D u D') :
    D.toLedger.SameBeyond S D'.toLedger := by
  obtain ⟨-, rfl⟩ | ⟨r, stake, r₂, L₂, D₁, D₂, hr, -, settles, hD₁, hraise, hflip⟩ :=
    yields_changeStake full h
  · exact .refl S _
  · have hself : D.toLedger.SameBeyond S D₁.toLedger :=
      hD₁ ▸ (settles.sameBeyond within).trans (.put within r₂)
    have hrecords : D₁.records = D.records.insert a r₂ :=
      (congrArg Ledger.records hD₁).trans (by rw [Ledger.put, settles.records_eq])
    obtain ⟨s, t, rfl⟩ := settles.exists_eq_update
    have hplaces : parentOf D₁.records = parentOf D.records := by
      rw [hrecords]
      exact parentOf_insert hr rfl
    have hfull : Full D₁.records := by
      rw [hrecords]
      exact full.insert (full a r hr)
    have hwalk := walk_raiseTeams hfull hraise
    have hteams := sameBeyond_raiseTeams hfull (up.congr hplaces)
      (fun b hb => up a within b ((parentOf_of_get? hr).trans hb)) hraise
    obtain ⟨-, rfl⟩ | ⟨-, hactive⟩ := hflip
    · exact hself.trans hteams
    · have hup : D₂.records.Upward S := up.congr ((parentOf_walk hwalk).trans hplaces)
      exact hself.trans
        (hteams.trans (sameBeyond_setActive (hwalk.full hfull) hup within hactive))

end Cascade

end ReferralForest

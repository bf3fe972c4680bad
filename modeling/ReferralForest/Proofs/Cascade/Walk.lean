import Mathlib.Logic.Relation
import ReferralForest.Forest.Membership
import ReferralForest.Forest.Stake
import ReferralForest.Proofs.Cascade.Settling

/-!
# Walks over Records

Most of what a cascade does is a *walk*: it changes one record after another, each in its place, and
has most of them settled. A walk creates no record, moves no account and touches the queue only
through settling. What is true of every stride of a walk is proved once, here, and each cascade is
shown to be a walk whose strides are of a certain kind.

## Main definitions

* `Record.Edits` — what a change of a record in its place leaves alone.
* `Ledger.Stride`, `Ledger.Walk` — one change, and any number of them.
* `Edit.touch`, `Edit.team`, `Edit.counts`, `Edit.activity`, `Edit.settled` — the kinds of strides that
  occur.

## Main statements

* `Cascade.walk_update`, `Cascade.records_of_update` — an update is a walk, and puts one record.
* `Cascade.yields_changeStake`, `Cascade.records_of_changeStake` — the phases of a stake change.
-/

namespace ReferralForest

/-- What a change of a record in its place leaves alone; its tier and its schedule are left to
settling. -/
structure Record.Edits (r r' : Record) : Prop where
  /-- The tier stays. -/
  status : r'.status = r.status
  /-- The account stays where it is. -/
  referrer : r'.referrer = r.referrer
  /-- The schedule stays. -/
  downgradeAt : r'.downgradeAt = r.downgradeAt
  /-- As many generations are counted. -/
  length : r'.generations.length = r.generations.length

/-- A kind of change of a record, given the time as of which the record is settled. -/
abbrev Edit := Option Timestamp → Record → Record → Prop

namespace Edit

/-- The record is only settled. -/
def touch (now : Timestamp) : Edit := fun checkAt r r' => checkAt = some now ∧ r' = r

/-- The team stake changes. -/
def team (now : Timestamp) : Edit := fun checkAt r r' =>
  checkAt = some now ∧ ∃ stake, r' = { r with teamStake := stake }

/-- Anything changes and the record is settled, or nothing that requirements look at changes. -/
def settled (checkAt : Option Timestamp) : Edit := fun c r r' =>
  c = checkAt ∨ c = none ∧ r'.measures = r.measures

/-- Activity and the counts of active accounts change, and the record is settled unless nothing changes
that requirements look at. -/
def activity (checkAt : Option Timestamp) : Edit := fun c r r' =>
  ∃ active generations tallies, r' = { r with active, generations, tallies } ∧
    (c = checkAt ∨ c = none ∧ tallies = r.tallies)

/-- A change of activity is settled, or changes nothing that requirements look at. -/
theorem settled_of_activity {checkAt c : Option Timestamp} {r r' : Record}
    (h : activity checkAt c r r') : settled checkAt c r r' := by
  obtain ⟨active, generations, tallies, rfl, hc | ⟨hc, rfl⟩⟩ := h
  · exact .inl hc
  · exact .inr ⟨hc, rfl⟩

/-- The counts of active accounts change. -/
def counts (checkAt : Option Timestamp) : Edit := fun c r r' =>
  c = checkAt ∧ ∃ generations tallies, r' = { r with generations, tallies }

end Edit

namespace Ledger

/-- **One change of a record in its place**, which is then settled or not. -/
inductive Stride (P : Edit) : Ledger → Ledger → Prop
  | intro {L L' : Ledger} {a : AccountId} {checkAt : Option Timestamp} {r r₁ r₂ : Record}
      (found : L.records.get? a = some r) (edits : r.Edits r₁) (how : P checkAt r r₁)
      (settles : L.Settles a checkAt r₁ r₂ L') : Stride P L (L'.put a r₂)

/-- Any number of such changes. -/
abbrev Walk (P : Edit) : Ledger → Ledger → Prop := Relation.ReflTransGen (Stride P)

variable {P Q : Edit} {L L' : Ledger}

/-- Strides of one kind are strides of any wider kind. -/
theorem Walk.mono (h : Walk P L L') (hPQ : ∀ c r r', P c r r' → Q c r r') : Walk Q L L' := by
  refine Relation.ReflTransGen.mono (fun L L' hs => ?_) _ _ h
  obtain ⟨found, edits, how, settles⟩ := hs
  exact .intro found edits (hPQ _ _ _ how) settles

/-- What each stride keeps, a walk keeps. -/
theorem Walk.invariant {I : Ledger → Prop} (step : ∀ L L', Stride P L L' → I L → I L')
    (h : Walk P L L') (hI : I L) : I L' := by
  induction h with
  | refl => exact hI
  | tail _ hs ih => exact step _ _ hs ih

/-- A walk keeps all records full. -/
theorem Walk.full (h : Walk P L L') (full : Roster.Full L.records) : Roster.Full L'.records := by
  refine h.invariant (I := fun M => Roster.Full M.records) (fun M M' hs hM => ?_) full
  obtain ⟨found, edits, -, settles⟩ := hs
  obtain ⟨s, t, rfl⟩ := settles.exists_eq_update
  rw [Ledger.put, settles.records_eq]
  exact hM.insert (edits.length.trans (hM _ _ found))

/-- A walk marks no referral. -/
theorem Walk.relations_eq (h : Walk P L L') : L'.relations = L.relations := by
  refine h.invariant (I := fun M => M.relations = L.relations) (fun M M' hs hM => ?_) rfl
  obtain ⟨-, -, -, settles⟩ := hs
  exact settles.relations_eq.trans hM

/-- A walk leaves the parameters. -/
theorem Walk.params_eq (h : Walk P L L') : L'.params = L.params := by
  refine h.invariant (I := fun M => M.params = L.params) (fun M M' hs hM => ?_) rfl
  obtain ⟨-, -, -, settles⟩ := hs
  exact settles.params_eq.trans hM

/-- **What no stride changes about records, a walk leaves as it is**; in particular a walk creates no
record. -/
theorem Walk.map_get?_eq {X : Type} {f : Record → X} (h : Walk P L L')
    (edit : ∀ c r r', r.Edits r' → P c r r' → f r' = f r)
    (settle : ∀ r s t, f { r with status := s, downgradeAt := t } = f r) (b : AccountId) :
    (L'.records.get? b).map f = (L.records.get? b).map f := by
  classical
  refine h.invariant (I := fun M => (M.records.get? b).map f = (L.records.get? b).map f)
    (fun M M' hs hM => ?_) rfl
  obtain ⟨found, edits, how, settles⟩ := hs
  obtain ⟨s, t, rfl⟩ := settles.exists_eq_update
  rw [← hM, Ledger.put, SortedMap.get?_insert, settles.records_eq]
  split
  next hb => rw [hb, found, Option.map_some, Option.map_some, settle, edit _ _ _ edits how]
  next => rfl

end Ledger

namespace Cascade

open Ledger

variable {β : Type} {P : Edit} {D D' : Draft}

/-- A change of a record that does nothing else to the draft and is of a certain kind. -/
def Plain (Q : Record → Record → Prop) (change : Record → Cascade (β × Record)) : Prop :=
  ∀ D r b r' D', (change r).Yields D (b, r') D' →
    D'.toLedger = D.toLedger ∧ r.Edits r' ∧ Q r r'

/-- **An update is a walk** of at most one stride. -/
theorem walk_update {checkAt : Option Timestamp} {a : AccountId}
    {change : Record → Cascade (β × Record)} {result : Option β}
    (plain : Plain (P checkAt) change) (full : Roster.Full D.records)
    (h : (update checkAt a change).Yields D result D') : Walk P D.toLedger D'.toLedger := by
  obtain ⟨-, -, rfl⟩ | ⟨r, b, r₁, D₁, r₂, L₂, hr, hchange, settles, -, hD'⟩ := yields_update h
  · exact .refl
  · rw [Record.normalize_of_length (full a r hr).ge] at hchange
    obtain ⟨hledger, hedits, how⟩ := plain D r b r₁ D₁ hchange
    rw [hledger] at settles
    rw [hD']
    exact .single (.intro hr hedits how settles)

/-- **What an update does to the records**: it finds none to change, or it puts the changed record,
settled or not. -/
theorem records_of_update {Q : Record → Record → Prop} {checkAt : Option Timestamp} {a : AccountId}
    {change : Record → Cascade (β × Record)} {result : Option β} (plain : Plain Q change)
    (full : Roster.Full D.records) (h : (update checkAt a change).Yields D result D') :
    (D.records.get? a = none ∧ result = none ∧ D' = D) ∨
      ∃ r b r₁ D₁ s t, D.records.get? a = some r ∧ (change r).Yields D (b, r₁) D₁ ∧
        result = some b ∧
        D'.records = D.records.insert a { r₁ with status := s, downgradeAt := t } := by
  obtain ⟨hnone, hresult, hD'⟩ | ⟨r, b, r₁, D₁, r₂, L₂, hr, hchange, settles, hresult, hD'⟩ :=
    yields_update h
  · exact .inl ⟨hnone, hresult, hD'⟩
  · rw [Record.normalize_of_length (full a r hr).ge] at hchange
    obtain ⟨hledger, -, -⟩ := plain D r b r₁ D₁ hchange
    have hrecords := settles.records_eq
    obtain ⟨s, t, rfl⟩ := settles.exists_eq_update
    rw [hledger] at hrecords
    refine .inr ⟨r, b, r₁, D₁, s, t, hr, hchange, hresult, ?_⟩
    rw [hD', Ledger.put, hrecords]

/-! ### Touching -/

/-- A touch leaves the record as it is. -/
theorem plain_touch (now : Timestamp) :
    Plain (Edit.touch now (some now)) fun r => pure (r.referrer, r) := by
  intro D r b r' D' h
  obtain ⟨hr, rfl⟩ := yields_done.mp h
  obtain ⟨rfl, rfl⟩ := Prod.mk.inj hr
  exact ⟨rfl, ⟨rfl, rfl, rfl, rfl⟩, rfl, rfl⟩

/-- Touching an account is a walk. -/
theorem walk_touch {now : Timestamp} {a : AccountId} {parent : Option AccountId}
    (full : Roster.Full D.records) (h : (touch now a).Yields D parent D') :
    Walk (Edit.touch now) D.toLedger D'.toLedger := by
  obtain ⟨result, hupdate, -⟩ := yields_map.mp h
  exact walk_update (plain_touch now) full hupdate

/-- Touching ancestors is a walk. -/
theorem walk_touchAncestors {now : Timestamp} {levels : Nat} {start : Option AccountId} {u : Unit}
    (full : Roster.Full D.records) (h : (touchAncestors now levels start).Yields D u D') :
    Walk (Edit.touch now) D.toLedger D'.toLedger := by
  induction levels generalizing start D with
  | zero =>
      obtain ⟨-, rfl⟩ := yields_done.mp h
      exact .refl
  | succ levels ih =>
      cases start with
      | none =>
          obtain ⟨-, rfl⟩ := yields_done.mp h
          exact .refl
      | some ancestor =>
          obtain ⟨parent, D₁, htouch, hrest⟩ := yields_bind.mp h
          obtain ⟨_, D₂, hannounce, hrest⟩ := yields_bind.mp hrest
          rw [yields_announce] at hannounce
          subst hannounce
          have hwalk := walk_touch full htouch
          exact hwalk.trans (ih (D := D₁.announce _) (hwalk.full full) hrest)

/-! ### Stakes -/

/-- The change of an own stake. -/
theorem yields_addSelfStake {delta : Int} {r r' : Record} {b : Option Bool × Option AccountId}
    (h : (addSelfStake delta r).Yields D (b, r') D') :
    D' = D ∧ ∃ stake, r.selfStake.shift? delta = some stake ∧ r' = { r with selfStake := stake } ∧
      b = (if decide (activationThreshold ≤ stake.units) = r.active then none
        else some (decide (activationThreshold ≤ stake.units)), r.referrer) := by
  simp only [addSelfStake, yields_bind, yields_checked, Dialogue.pure_def, yields_done] at h
  obtain ⟨stake, _, ⟨hstake, rfl⟩, hb, rfl⟩ := h
  obtain ⟨rfl, rfl⟩ := Prod.mk.inj hb
  exact ⟨rfl, stake, hstake, rfl, rfl⟩

/-- Adding to the own stake changes nothing else of the record. -/
theorem plain_addSelfStake (delta : Int) : Plain (fun _ _ => True) (addSelfStake delta) := by
  intro D r b r' D' h
  obtain ⟨rfl, stake, -, rfl, -⟩ := yields_addSelfStake h
  exact ⟨rfl, ⟨rfl, rfl, rfl, rfl⟩, trivial⟩

/-- The change of a team stake. -/
theorem yields_addTeamStake {delta : Int} {r r' : Record} {parent : Option AccountId}
    (h : (addTeamStake delta r).Yields D (parent, r') D') :
    D' = D ∧ parent = r.referrer ∧ ∃ stake, r.teamStake.shift? delta = some stake ∧
      r' = { r with teamStake := stake } := by
  simp only [addTeamStake, yields_bind, yields_checked, Dialogue.pure_def, yields_done] at h
  obtain ⟨stake, _, ⟨hstake, rfl⟩, hr, rfl⟩ := h
  obtain ⟨rfl, rfl⟩ := Prod.mk.inj hr
  exact ⟨rfl, rfl, stake, hstake, rfl⟩

/-- Adding to the team stake changes nothing else of the record. -/
theorem plain_addTeamStake (now : Timestamp) (delta : Int) :
    Plain (Edit.team now (some now)) (addTeamStake delta) := by
  intro D r b r' D' h
  obtain ⟨rfl, -, stake, -, rfl⟩ := yields_addTeamStake h
  exact ⟨rfl, ⟨rfl, rfl, rfl, rfl⟩, rfl, stake, rfl⟩

/-- An event announced on a condition makes no difference to the ledger. -/
theorem yields_announce_if {p : Prop} [Decidable p] {a : AccountId} {event : Event}
    {rest : Unit → Cascade β} {b : β}
    (h : (if p then announce a event >>= rest else rest ()).Yields D b D') :
    ∃ D₁, D₁.toLedger = D.toLedger ∧ (rest ()).Yields D₁ b D' := by
  split at h
  · obtain ⟨_, D₁, hannounce, hrest⟩ := yields_bind.mp h
    rw [yields_announce] at hannounce
    subst hannounce
    exact ⟨D.announce _, rfl, hrest⟩
  · exact ⟨D, rfl, h⟩

/-- One level of the walk that raises team stakes. -/
theorem yields_raiseTeams_succ {now : Timestamp} {delta : Int} {bound : Nat} {ancestor : AccountId}
    {u : Unit} (h : (raiseTeams now delta (bound + 1) (some ancestor)).Yields D u D') :
    ∃ parent D₁ D₂, (update (some now) ancestor (addTeamStake delta)).Yields D parent D₁ ∧
      D₂.toLedger = D₁.toLedger ∧ (raiseTeams now delta bound parent.join).Yields D₂ u D' := by
  obtain ⟨parent, D₁, hupdate, hrest⟩ := yields_bind.mp h
  obtain ⟨D₂, hD₂, hrest⟩ := yields_announce_if hrest
  exact ⟨parent, D₁, D₂, hupdate, hD₂, hrest⟩

/-- Raising the team stakes of all ancestors is a walk. -/
theorem walk_raiseTeams {now : Timestamp} {delta : Int} {bound : Nat} {start : Option AccountId}
    {u : Unit} (full : Roster.Full D.records)
    (h : (raiseTeams now delta bound start).Yields D u D') :
    Walk (Edit.team now) D.toLedger D'.toLedger := by
  induction bound generalizing start D with
  | zero =>
      cases start with
      | none =>
          obtain ⟨-, rfl⟩ := yields_done.mp h
          exact .refl
      | some ancestor => exact absurd h (by simp [raiseTeams])
  | succ bound ih =>
      cases start with
      | none =>
          obtain ⟨-, rfl⟩ := yields_done.mp h
          exact .refl
      | some ancestor =>
          obtain ⟨parent, D₁, D₂, hupdate, hD₂, hrest⟩ := yields_raiseTeams_succ h
          have hwalk := walk_update (plain_addTeamStake now delta) full hupdate
          rw [← hD₂] at hwalk
          exact hwalk.trans (ih (hwalk.full full) hrest)

/-- **The phases of a stake change**: the account's own record, the team stakes above it, and, if the
account crosses the threshold, the cascade of its activity. -/
theorem yields_changeStake {now : Timestamp} {a : AccountId} {delta : Int} {bound : Nat} {u : Unit}
    (full : Roster.Full D.records) (h : (changeStake now a delta bound).Yields D u D') :
    (D.records.get? a = none ∧ D' = D) ∨
      ∃ r stake r₂ L₂ D₁ D₂, D.records.get? a = some r ∧
        r.selfStake.shift? delta = some stake ∧
        D.toLedger.Settles a (some now) { r with selfStake := stake } r₂ L₂ ∧
        D₁.toLedger = L₂.put a r₂ ∧ (raiseTeams now delta bound r.referrer).Yields D₁ () D₂ ∧
        (decide (activationThreshold ≤ stake.units) = r.active ∧ D' = D₂ ∨
          decide (activationThreshold ≤ stake.units) ≠ r.active ∧
            (setActive (some now) a (activationThreshold ≤ stake.units)).Yields D₂ u D') := by
  obtain ⟨result, D₁, hupdate, hrest⟩ := yields_bind.mp h
  obtain ⟨hnone, rfl, rfl⟩ | ⟨r, b, r₁, D₀, r₂, L₂, hr, hchange, settles, rfl, hD₁⟩ :=
    yields_update hupdate
  · obtain ⟨-, rfl⟩ := yields_done.mp hrest
    exact .inl ⟨hnone, rfl⟩
  · rw [Record.normalize_of_length (full a r hr).ge] at hchange
    obtain ⟨rfl, stake, hstake, rfl, rfl⟩ := yields_addSelfStake hchange
    dsimp only at hrest
    obtain ⟨D₂, hD₂, hrest⟩ := yields_announce_if hrest
    obtain ⟨_, D₃, hraise, hrest⟩ := yields_bind.mp hrest
    refine .inr ⟨r, stake, r₂, L₂, D₂, D₃, hr, hstake, settles, hD₂.trans hD₁, hraise, ?_⟩
    by_cases hflip : decide (activationThreshold ≤ stake.units) = r.active
    · rw [if_pos hflip] at hrest
      exact .inl ⟨hflip, (yields_done.mp hrest).2⟩
    · rw [if_neg hflip] at hrest
      exact .inr ⟨hflip, hrest⟩

/-- **The phases of a stake change, seen on the records**: the account's own record with the changed
stake, settled, is put first. -/
theorem records_of_changeStake {now : Timestamp} {a : AccountId} {delta : Int} {bound : Nat} {u : Unit}
    (full : Roster.Full D.records) (h : (changeStake now a delta bound).Yields D u D') :
    (D.records.get? a = none ∧ D' = D) ∨
      ∃ r stake s t D₁ D₂, D.records.get? a = some r ∧
        (stake.units : Int) = r.selfStake.units + delta ∧
        D₁.records = D.records.insert a
          { r with selfStake := stake, status := s, downgradeAt := t } ∧
        (raiseTeams now delta bound r.referrer).Yields D₁ () D₂ ∧
        (decide (activationThreshold ≤ stake.units) = r.active ∧ D' = D₂ ∨
          (setActive (some now) a (activationThreshold ≤ stake.units)).Yields D₂ u D') := by
  obtain hnone | ⟨r, stake, r₂, L₂, D₁, D₂, hr, hstake, settles, hD₁, hraise, hflip⟩ :=
    yields_changeStake full h
  · exact .inl hnone
  · have hsame := settles.records_eq
    obtain ⟨s, t, rfl⟩ := settles.exists_eq_update
    have hrecords : D₁.records = _ := congrArg Ledger.records hD₁
    rw [Ledger.put, hsame] at hrecords
    exact .inr ⟨r, stake, s, t, D₁, D₂, hr, Amount.shift?_eq_some_iff.mp hstake, hrecords, hraise,
      hflip.imp_right And.right⟩

end Cascade

end ReferralForest

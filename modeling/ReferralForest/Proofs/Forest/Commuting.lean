import ReferralForest.Proofs.Forest.Attaining
import ReferralForest.Proofs.Forest.Deposits
import ReferralForest.Proofs.Forest.Regular

/-!
# Deposits Commute

Deposits can be made in any order and in any portions: if a series of them succeeds, so does every other
series that pays everybody the same, and both end at the same store. The series that succeeded shows
that what the others arrive at fits, at every moment of theirs; and where a rising walk ends is decided
by what everybody holds at its end.

## Main definitions

* `Deposit` — a deposit in a block.
* `Deposit.paidTo` — what a series of deposits pays to an account.

## Main statements

* `Forest.exists_completed_deposits` — a series of deposits succeeds where there is room for it.
* `Forest.exists_completed_of_paidTo_eq` — series that pay everybody the same lead to the same store.
* `Forest.deposits_commute` — two deposits commute, and a deposit can be split.
-/

namespace ReferralForest

open Roster

/-- A deposit in a block. -/
structure Deposit where
  /-- The time of the block. -/
  time : Timestamp
  /-- The account that deposits. -/
  account : AccountId
  /-- How much, in base units. -/
  amount : Nat

/-- The turn in which a deposit is made. -/
def Deposit.turn (d : Deposit) : Turn := ⟨d.time, .changeStake d.account d.amount⟩

/-- What a series of deposits pays to an account. -/
def Deposit.paidTo (l : List Deposit) (a : AccountId) : Nat :=
  (l.map fun d => if a = d.account then d.amount else 0).sum

/-- Paying first one deposit and then others. -/
theorem Deposit.paidTo_cons (d : Deposit) (l : List Deposit) (a : AccountId) :
    (paidTo (d :: l) a : Int) = (if a = d.account then (d.amount : Int) else 0) + paidTo l a := by
  rw [paidTo, List.map_cons, List.sum_cons, ← paidTo]
  split_ifs <;> simp

/-! ### Ready ledgers -/

namespace Roster

variable {m m' u : Roster} {gain gain' : AccountId → Int}

/-- Gains that are the same. -/
theorem Gained.congr (h : Gained m m' gain) (same : ∀ a, gain' a = gain a) : Gained m m' gain' := by
  rwa [show gain' = gain from funext same]

/-- Nobody moves when stakes are gained. -/
theorem Gained.parentOf_eq (h : Gained m m' gain) : parentOf m' = parentOf m := by
  funext a
  cases hr : m.get? a with
  | none =>
      have hnone := h a
      rw [hr, Option.map_none, Option.map_eq_none_iff] at hnone
      rw [parentOf, parentOf, hr, hnone]
  | some r =>
      obtain ⟨r', hr', hreferrer, -⟩ := h.exists_of_get? hr
      rw [parentOf_of_get? hr, parentOf_of_get? hr', hreferrer]

/-- **A forest lies below one in which everybody has gained** no less than nothing. -/
theorem Gained.below (h : Gained m m' gain) (sound : Sound m) (sound' : Sound m')
    (gains : ∀ a, 0 ≤ gain a) : Below m m' where
  lineage := h.parentOf_eq.symm
  within a r hr := by
    obtain ⟨r', hr', -, hstake⟩ := h.exists_of_get? hr
    have hgain := gains a
    exact ⟨r', hr', sound.within sound' hr hr' (by omega)⟩

end Roster

/-- In a forest whose counts are right no count is negative. -/
theorem Roster.Tallied.sane {m : Roster} (h : Tallied m) {a : AccountId} {r : Record}
    (found : m.get? a = some r) : r.tallies.Sane := by
  intro k
  rw [h a r k found]
  exact Int.natCast_nonneg _

namespace Forest

variable {host : Host} {L : Ledger} {u : Roster} {times : Set Timestamp} {store : Store}

/-- **A deposit is carried out** where there is room for it. -/
theorem attains_deposit (quiet : host.Quiet) (unfailing : host.Unfailing) (sound : Sound u)
    (ready : L.Ready u times) (here : Sound L.records) {d : Deposit} (timed : d.time ∈ times)
    (room : ∀ r q, L.records.get? d.account = some r → u.get? d.account = some q →
      r.selfStake.units + d.amount ≤ q.selfStake.units) :
    (d.turn.operation.program host d.turn.time).Attains L fun _ L' =>
      Ledger.Walk Edit.rising L L' ∧ L'.Ready u times ∧ Sound L'.records ∧
        Gained L.records L'.records fun a => if a = d.account then (d.amount : Int) else 0 := by
  refine Program.Attains.bind Program.attains_size ?_
  rintro bound L ⟨hbound, rfl⟩
  obtain ⟨D, hcourse, hwalk, hready⟩ := Cascade.exists_changeStake (D := L.draft) sound timed ready here
    (Int.natCast_nonneg d.amount) (fun r q hr hq => by exact_mod_cast room r q hr hq) hbound
  refine (Program.attains_commit quiet hcourse (.inl unfailing) hready.full).mono ?_
  rintro _ _ ⟨-, rfl⟩
  exact ⟨hwalk, hready, here.changeStake hcourse, here.gained_of_changeStake hcourse⟩

/-- **A series of deposits succeeds** where there is room for all of it. -/
theorem exists_completed_deposits (quiet : host.Quiet) (unfailing : host.Unfailing) (sound : Sound u)
    {l : List Deposit} (timed : ∀ d ∈ l, d.time ∈ times) (keeps : (World.ofStore store).Keeps L)
    (ready : L.Ready u times) (here : Sound L.records)
    (room : ∀ a r q, L.records.get? a = some r → u.get? a = some q →
      r.selfStake.units + Deposit.paidTo l a ≤ q.selfStake.units) :
    ∃ store' L', completed? host (l.map Deposit.turn) store = some store' ∧
      (World.ofStore store').Keeps L' ∧ Ledger.Walk Edit.rising L L' ∧ Sound L'.records ∧
      Gained L.records L'.records fun a => (Deposit.paidTo l a : Int) := by
  induction l generalizing store L with
  | nil => exact ⟨store, L, rfl, keeps, .refl, here, .refl _⟩
  | cons d rest ih =>
      have hnow : ∀ r q, L.records.get? d.account = some r → u.get? d.account = some q →
          r.selfStake.units + d.amount ≤ q.selfStake.units := by
        intro r q hr hq
        have hall := room d.account r q hr hq
        have hpaid := Deposit.paidTo_cons d rest d.account
        rw [if_pos rfl] at hpaid
        omega
      obtain ⟨w, L₁, hout, hkeeps, hwalk, hready, hsound, hgained⟩ := exists_outcome d.turn keeps
        (attains_deposit quiet unfailing sound ready here (timed d List.mem_cons_self) hnow)
      have hlater : ∀ a r q, L₁.records.get? a = some r → u.get? a = some q →
          r.selfStake.units + Deposit.paidTo rest a ≤ q.selfStake.units := by
        intro a r₁ q hr₁ hq
        obtain ⟨r, hr⟩ := Option.ne_none_iff_exists'.mp
          (mt (hwalk.get?_eq_none_iff a).mpr (by simp [hr₁]))
        obtain ⟨r', hr', -, hstake⟩ := hgained.exists_of_get? hr
        obtain rfl := Option.some.inj (hr₁.symm.trans hr')
        have hall := room a r q hr hq
        have hpaid := Deposit.paidTo_cons d rest a
        omega
      obtain ⟨store', L', hrest, hkeeps', hwalk', hsound', hgained'⟩ :=
        ih (fun e he => timed e (List.mem_cons_of_mem _ he)) hkeeps hready hsound hlater
      refine ⟨store', L', ?_, hkeeps', hwalk.trans hwalk', hsound', ?_⟩
      · rw [List.map_cons, completed?_cons_eq_some_iff]
        exact ⟨w, hout, hrest⟩
      · exact (hgained.trans hgained').congr fun a => Deposit.paidTo_cons d rest a

/-- **A series of deposits that leads to what a sound forest has** succeeds, if every record can be
checked: that forest shows that there is room for it. -/
theorem exists_completed_of_gained (quiet : host.Quiet) (unfailing : host.Unfailing) (sound : Sound u)
    {l : List Deposit} (timed : ∀ d ∈ l, d.time ∈ times) (keeps : (World.ofStore store).Keeps L)
    (here : Sound L.records) (checkable : L.Checkable times)
    (gained : Gained L.records u fun a => (Deposit.paidTo l a : Int)) :
    ∃ store' L', completed? host (l.map Deposit.turn) store = some store' ∧
      (World.ofStore store').Keeps L' ∧ Ledger.Walk Edit.rising L L' ∧ Sound L'.records ∧
      ∀ a, (L'.records.get? a).map Record.origin = (u.get? a).map Record.origin := by
  have hready : L.Ready u times :=
    ⟨here.recounted.full, fun a r hr => here.recounted.tallied.sane hr,
      gained.below here sound fun a => Int.natCast_nonneg _, checkable⟩
  have hroom : ∀ a r q, L.records.get? a = some r → u.get? a = some q →
      r.selfStake.units + Deposit.paidTo l a ≤ q.selfStake.units := by
    intro a r q hr hq
    obtain ⟨q', hq', -, hstake⟩ := gained.exists_of_get? hr
    obtain rfl := Option.some.inj (hq.symm.trans hq')
    omega
  obtain ⟨store', L', hdone, hkeeps, hwalk, hsound, hgained⟩ :=
    exists_completed_deposits quiet unfailing sound timed keeps hready here hroom
  exact ⟨store', L', hdone, hkeeps, hwalk, hsound, hgained.origin_eq gained⟩

/-- What a series of deposits that succeeds leads to. -/
theorem sound_of_completed_deposits (quiet : host.Quiet) {l : List Deposit} {store' : Store}
    (keeps : (World.ofStore store).Keeps L) (inStep : L.InStep) (here : Sound L.records)
    (done : completed? host (l.map Deposit.turn) store = some store') :
    ∃ m, Sound m ∧ Gained L.records m fun a => (Deposit.paidTo l a : Int) := by
  induction l generalizing store L with
  | nil => exact ⟨L.records, here, .refl _⟩
  | cons d rest ih =>
      rw [List.map_cons, completed?_cons_eq_some_iff] at done
      obtain ⟨w, hout, hrest⟩ := done
      obtain ⟨L₁, hkeeps, hstep, ⟨⟨e, hfailed⟩, -⟩ | ⟨-, ms, hmakes, hpath⟩⟩ :=
        keeps_outcome quiet keeps inStep d.turn
      · rw [hout] at hfailed
        contradiction
      · rw [hout] at hkeeps
        obtain rfl : ms = [.changeStake d.time d.account d.amount] := hmakes
        obtain ⟨⟩ | ⟨⟨⟩, ⟨⟩⟩ := hpath
        next D bound course =>
          obtain ⟨m, hsound, hgained⟩ := ih hkeeps hstep (here.changeStake course) hrest
          refine ⟨m, hsound, ((here.gained_of_changeStake course).trans hgained).congr fun a => ?_⟩
          exact Deposit.paidTo_cons d rest a

/-- **Series of deposits that pay everybody the same** lead to the same store, if one of them leads
anywhere. -/
theorem exists_completed_of_paidTo_eq (quiet : host.Quiet) (unfailing : host.Unfailing)
    {l l' : List Deposit} {store' : Store} (keeps : (World.ofStore store).Keeps L)
    (regular : L.Regular) (done : completed? host (l.map Deposit.turn) store = some store')
    (same : ∀ a, Deposit.paidTo l' a = Deposit.paidTo l a) :
    ∃ store'', completed? host (l'.map Deposit.turn) store = some store'' ∧
      store''.view = store'.view := by
  obtain ⟨u, hsound, hgained⟩ :=
    sound_of_completed_deposits quiet keeps regular.inStep regular.sound done
  have hleads : ∀ k : List Deposit, (∀ a, Deposit.paidTo k a = Deposit.paidTo l a) →
      ∃ store₁ L₁, completed? host (k.map Deposit.turn) store = some store₁ ∧
        (World.ofStore store₁).Keeps L₁ ∧ Ledger.Walk Edit.rising L L₁ ∧ Sound L₁.records ∧
        ∀ a, (L₁.records.get? a).map Record.origin = (u.get? a).map Record.origin := by
    intro k hk
    exact exists_completed_of_gained quiet unfailing hsound (fun d _ => Set.mem_univ d.time) keeps
      regular.sound (.inr fun a r hr => (regular.climbed a r hr).held)
      (hgained.congr fun a => by rw [hk a])
  obtain ⟨store₁, L₁, hdone, hkeeps₁, hwalk₁, hsound₁, horigin₁⟩ := hleads l fun _ => rfl
  obtain rfl := Option.some.inj (done.symm.trans hdone)
  obtain ⟨store₂, L₂, hdone₂, hkeeps₂, hwalk₂, hsound₂, horigin₂⟩ := hleads l' same
  obtain rfl := regular.eq_of_rising hwalk₁ hwalk₂ hsound₁ hsound₂ fun a =>
    (horigin₁ a).trans (horigin₂ a).symm
  exact ⟨store₂, hdone₂, hkeeps₂.stored.eq_map hkeeps₁.stored⟩

/-- **Deposits commute and split.** If a deposit of one account and then one of another succeed on a
store with a history of operations that settle what they change and leave activity to the stakes, then
they succeed in the opposite order, and lead to the same store; and so does a single deposit of both
amounts, if the accounts are one. The times of the blocks do not matter. -/
theorem deposits_commute (quiet : host.Quiet) (unfailing : host.Unfailing) {turns : List Turn}
    (settles : ∀ turn ∈ turns, turn.operation.Settles)
    (leaves : ∀ turn ∈ turns, turn.operation.LeavesActivity) {x y : AccountId} {d e : Nat}
    {t₁ t₂ : Timestamp} {store : Store}
    (done : completed? host [⟨t₁, .changeStake x d⟩, ⟨t₂, .changeStake y e⟩] (after host turns) =
      some store) :
    (∀ t₃ t₄, ∃ store', store'.view = store.view ∧
      completed? host [⟨t₃, .changeStake y e⟩, ⟨t₄, .changeStake x d⟩] (after host turns) =
        some store') ∧
    (x = y → ∀ t, ∃ store', store'.view = store.view ∧
      completed? host [⟨t, .changeStake x (d + e)⟩] (after host turns) = some store') := by
  obtain ⟨L, hkeeps, hregular⟩ := exists_regular quiet settles leaves
  have hleads : ∀ l' : List Deposit,
      (∀ a, Deposit.paidTo l' a = Deposit.paidTo [⟨t₁, x, d⟩, ⟨t₂, y, e⟩] a) →
        ∃ store', store'.view = store.view ∧
          completed? host (l'.map Deposit.turn) (after host turns) = some store' := by
    intro l' hsame
    obtain ⟨store', hdone', hview⟩ := exists_completed_of_paidTo_eq quiet unfailing hkeeps hregular
      (l := [⟨t₁, x, d⟩, ⟨t₂, y, e⟩]) done hsame
    exact ⟨store', hview, hdone'⟩
  constructor
  · intro t₃ t₄
    refine hleads [⟨t₃, y, e⟩, ⟨t₄, x, d⟩] fun a => ?_
    simp only [Deposit.paidTo, List.map_cons, List.map_nil, List.sum_cons, List.sum_nil]
    omega
  · rintro rfl t
    refine hleads [⟨t, x, d + e⟩] fun a => ?_
    simp only [Deposit.paidTo, List.map_cons, List.map_nil, List.sum_cons, List.sum_nil]
    split_ifs <;> omega

/-- Deposits of the root and of its referral commute after the small history, and a deposit of the
referral can be split. -/
theorem deposits_commute_small :
    (∃ store, completed? Host.standalone [⟨⟨1000⟩, .changeStake SmallHistory.root (100000000 : Nat)⟩,
        ⟨⟨1001⟩, .changeStake SmallHistory.leaf (7 : Nat)⟩]
          (after Host.standalone SmallHistory.turns) = some store ∧
      ∀ t₃ t₄, ∃ store', store'.view = store.view ∧
        completed? Host.standalone [⟨t₃, .changeStake SmallHistory.leaf (7 : Nat)⟩,
          ⟨t₄, .changeStake SmallHistory.root (100000000 : Nat)⟩]
            (after Host.standalone SmallHistory.turns) = some store') ∧
    ∃ store, completed? Host.standalone [⟨⟨1000⟩, .changeStake SmallHistory.leaf (5 : Nat)⟩,
        ⟨⟨1001⟩, .changeStake SmallHistory.leaf (7 : Nat)⟩]
          (after Host.standalone SmallHistory.turns) = some store ∧
      ∀ t, ∃ store', store'.view = store.view ∧
        completed? Host.standalone [⟨t, .changeStake SmallHistory.leaf ((5 : Nat) + (7 : Nat))⟩]
          (after Host.standalone SmallHistory.turns) = some store' := by
  have hboth : (completed? Host.standalone
      [⟨⟨1000⟩, .changeStake SmallHistory.root (100000000 : Nat)⟩,
        ⟨⟨1001⟩, .changeStake SmallHistory.leaf (7 : Nat)⟩]
          (after Host.standalone SmallHistory.turns)).isSome := by decide +kernel
  have hportions : (completed? Host.standalone
      [⟨⟨1000⟩, .changeStake SmallHistory.leaf (5 : Nat)⟩,
        ⟨⟨1001⟩, .changeStake SmallHistory.leaf (7 : Nat)⟩]
          (after Host.standalone SmallHistory.turns)).isSome := by decide +kernel
  obtain ⟨store, hstore⟩ := Option.isSome_iff_exists.mp hboth
  obtain ⟨store', hstore'⟩ := Option.isSome_iff_exists.mp hportions
  exact ⟨⟨store, hstore, (deposits_commute Host.quiet_standalone Host.unfailing_standalone
      SmallHistory.settles SmallHistory.leavesActivity hstore).1⟩,
    store', hstore', (deposits_commute Host.quiet_standalone Host.unfailing_standalone
      SmallHistory.settles SmallHistory.leavesActivity hstore').2 rfl⟩

end Forest

end ReferralForest

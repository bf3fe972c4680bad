import ReferralForest.Proofs.Cascade.Blaming
import ReferralForest.Proofs.Forest.Stakes

/-!
# Delegations

An account delegates to validators. Whenever one of its bonded amounts changes, the forest is told the
old amount and the new one, and moves the own stake of the account by the difference. As long as each
report about an account of the forest begins where the last one about the same validator ended, the own
stake is the sum of the bonded amounts: no difference is lost on the way, and nothing but a sum out of
range stops one.

## Main definitions

* `Report`, `Incident` — reports of bonded amounts, among other operations.
* `Forest.afterAll`, `Forest.bonds` — the store after a history with reports, and what is bonded then.
* `Forest.Chained` — histories in which reports begin where the last ones ended.
* `Store.Delegates` — the own stakes of a store, and what it answers to reports.

## Main statements

* `Forest.books_of_report`, `Forest.exists_books` — a report keeps the own stakes right, and so does a
  history.
* `Forest.delegates_after` — the own stakes and the answers to reports after every chained history.
-/

namespace ReferralForest

/-- **A report** that a bonded amount of an account moves from `old` to `new`. -/
structure Report where
  /-- The time of the block. -/
  time : Timestamp
  /-- Who delegates. -/
  delegator : AccountId
  /-- To whom. -/
  validator : String
  /-- The amount before. -/
  old : Amount
  /-- The amount from now on. -/
  new : Amount

namespace Report

/-- The difference that a report makes. -/
def change (r : Report) : Int := r.new.units - r.old.units

/-- The program of a report. -/
def program (host : Host) (r : Report) : Program Unit :=
  Forest.changeDelegation host r.time r.delegator r.old r.new

/-- **What comes of a report** to a store, in a branch of its own. -/
def outcome (host : Host) (r : Report) (store : Store) : Except Error Unit × World :=
  (World.ofStore store).transact (r.program host)

/-- The stake change that a report amounts to. -/
def turn (r : Report) : Turn := ⟨r.time, .changeStake r.delegator r.change⟩

end Report

/-- What happens to a forest. -/
inductive Incident where
  /-- An operation is carried out. -/
  | turn (turn : Turn)
  /-- A bonded amount is reported. -/
  | report (report : Report)

/-- Whether stakes change by reports only, and activity with them. -/
def Incident.Calm : Incident → Prop
  | turn t => t.operation.Calm
  | report _ => True

/-- **Whether an account is of the forest.** -/
def Store.Registered (store : Store) (a : AccountId) : Prop :=
  ((World.ofStore store).run (Program.hasRecord a)).1 = .ok true

instance (store : Store) (a : AccountId) : Decidable (store.Registered a) :=
  inferInstanceAs (Decidable (_ = _))

/-- The sum of bonded amounts. -/
def bondedUnits (bonds : SortedMap String Amount) : Nat := bonds.total fun _ amount => amount.units

namespace Report

/-- A report begins with what is bonded: the amount it takes for the old one, or nothing. -/
def Continues (r : Report) (bonds : AccountId → SortedMap String Amount) : Prop :=
  r.old = ((bonds r.delegator).get? r.validator).getD .zero

instance (r : Report) (bonds : AccountId → SortedMap String Amount) : Decidable (r.Continues bonds) :=
  inferInstanceAs (Decidable (_ = _))

/-- What the delegator has bonded after the report. -/
def bonded (r : Report) (bonds : AccountId → SortedMap String Amount) : SortedMap String Amount :=
  (bonds r.delegator).insert r.validator r.new

end Report

namespace Forest

/-- **The store after a history with reports**, which is given latest first. -/
def afterAll (host : Host) : List Incident → Store
  | [] => .empty
  | .turn t :: earlier => (t.outcome host (afterAll host earlier)).2.store
  | .report r :: earlier => (r.outcome host (afterAll host earlier)).2.store

/-- **What an account has bonded** after a history: with each validator the new amount of the last report
that succeeded, of those made since the account is of the forest. -/
def bonds (host : Host) : List Incident → AccountId → SortedMap String Amount
  | [], _ => .empty
  | .turn _ :: earlier, a => bonds host earlier a
  | .report r :: earlier, a =>
    let store := afterAll host earlier
    if a = r.delegator ∧ store.Registered a ∧ (r.outcome host store).1 = .ok () then
      r.bonded (bonds host earlier)
    else bonds host earlier a

/-- **The reports of a history are chained**: each report about an account of the forest begins where the
last one that succeeded ended. -/
def Chained (host : Host) : List Incident → Prop
  | [] => True
  | .turn _ :: earlier => Chained host earlier
  | .report r :: earlier =>
    ((afterAll host earlier).Registered r.delegator → r.Continues (bonds host earlier)) ∧
      Chained host earlier

/-- Whether the reports of a history are chained can be found out by going through it. -/
instance decidableChained (host : Host) : (past : List Incident) → Decidable (Chained host past)
  | [] => .isTrue trivial
  | .turn _ :: earlier => decidableChained host earlier
  | .report _ :: earlier => @instDecidableAnd _ _ inferInstance (decidableChained host earlier)

end Forest

/-- **The own stakes of a store follow the reports.** -/
structure Store.Delegates (host : Host) (store : Store) (bonds : AccountId → SortedMap String Amount) :
    Prop where
  /-- The own stake of every account is the sum of what it has bonded. -/
  stakes : ∃ m : Roster, store.Holds m ∧
    ∀ a r, m.get? a = some r → r.selfStake.units = bondedUnits (bonds a)
  /-- A report is refused as such just if the difference has no room beside its sign. -/
  refuses : ∀ r : Report,
    (r.outcome host store).1 = .error (.overflow "stake delta") ↔ 2 ^ 127 ≤ r.change.natAbs
  /-- A report that is not refused and begins with what is bonded fails for the own stake just if the sum
  is out of range. -/
  exceeds : ∀ r : Report, store.Registered r.delegator → r.Continues bonds → r.change.natAbs < 2 ^ 127 →
    ((r.outcome host store).1 = .error (.update r.delegator .mutate (.overflow "self delegation")) ↔
      2 ^ 128 ≤ bondedUnits (r.bonded bonds))
  /-- There is no other way to fail for the own stake, and only accounts of the forest can. -/
  blames : ∀ (r : Report) (e : Error), (r.outcome host store).1 = .error e →
    e.quantity? = some "self delegation" →
      store.Registered r.delegator ∧ e = .update r.delegator .mutate (.overflow "self delegation")

/-! ### Single reports -/

/-- A double word has 128 bits. -/
theorem doubleWordSize_eq : doubleWordSize = 2 ^ 128 := by decide

/-- A shift fails just if the sum is out of range. -/
theorem Amount.shift?_eq_none_iff {a : Amount} {delta : Int} :
    a.shift? delta = none ↔ a.units + delta < 0 ∨ 2 ^ 128 ≤ a.units + delta := by
  rw [Option.eq_none_iff_forall_ne_some]
  simp only [ne_eq, shift?_eq_some_iff]
  constructor
  · intro hnone
    by_contra! hrange
    have hlt : ((a.units : Int) + delta).toNat < doubleWordSize := by
      rw [doubleWordSize_eq]
      omega
    exact hnone ⟨_, hlt⟩ (Int.toNat_of_nonneg hrange.1)
  · intro hout b hb
    have := b.units_lt
    rw [doubleWordSize_eq] at this
    omega

namespace Report

variable {r : Report} {host : Host} {store : Store}

/-- A report that makes a difference in range is a stake change. -/
theorem outcome_of_lt (h : r.change.natAbs < 2 ^ 127) (host : Host) (store : Store) :
    r.outcome host store = r.turn.outcome host store := by
  have hdifference : r.old.difference? r.new = some r.change := by
    rw [Amount.difference?]
    exact if_pos (by rw [doubleWordSize_eq]; rw [change] at h; omega)
  rw [outcome, program, Forest.changeDelegation, hdifference]
  rfl

/-- A report that makes a difference out of range is refused. -/
theorem outcome_of_le (h : 2 ^ 127 ≤ r.change.natAbs) (host : Host) (free : store.Unlimited) :
    (r.outcome host store).1 = .error (.overflow "stake delta") := by
  have hdifference : r.old.difference? r.new = none := by
    rw [Amount.difference?]
    exact if_neg (by rw [doubleWordSize_eq]; rw [change] at h; omega)
  rw [outcome, program, Forest.changeDelegation, hdifference, World.fst_transact free]
  rfl

end Report

namespace World

variable {w w' : World} {L : Ledger} {host : Host} {now : Timestamp} {a : AccountId} {delta : Int}

/-- A stake change is a cascade that is carried out. -/
theorem run_changeStake (w : World) : w.run (Forest.changeStake host now a delta) =
    w.run ((Cascade.changeStake now a delta w.store.size).commit host) :=
  run_bind_of_ok (run_request w Call.size) _

namespace Keeps

/-- **Whatever a stake change fails for** that cannot leave its range above the account, is the own
stake. -/
theorem of_run_changeStake (h : w.Keeps L) {quantity : String}
    (hq : quantity ∉ Cascade.quantitiesAbove) {e : Error}
    (hrun : w.run (Forest.changeStake host now a delta) = (.error e, w'))
    (he : e.quantity? = some quantity) :
    e = .update a .mutate (.overflow "self delegation") ∧
      ∃ r, L.records.get? a = some r ∧ r.selfStake.shift? delta = none := by
  rw [run_changeStake] at hrun
  have hfull := h.stored.full
  obtain ⟨D, hbreaks⟩ | ⟨target, e₀, rfl⟩ :=
    h.breaks_of_run_commit (fun _ D hD => (Cascade.walk_changeStake hfull hD).full hfull) hrun
  · exact Cascade.of_breaks_changeStake hq hbreaks he
  · simp at he

/-- **A new stake out of range** is what a stake change fails for. -/
theorem run_changeStake_of_excess (h : w.Keeps L) {r : Record} (found : L.records.get? a = some r)
    (excess : r.selfStake.shift? delta = none) : ∃ w', w.run (Forest.changeStake host now a delta) =
      (.error (.update a .mutate (.overflow "self delegation")), w') := by
  rw [run_changeStake]
  obtain ⟨D, hbreaks⟩ := Cascade.exists_breaks_changeStake (D := L.draft) found excess
  exact h.run_commit_of_breaks hbreaks

end Keeps

end World

/-! ### The books -/

/-- An operation that leaves stakes alone leaves activity to them. -/
theorem Operation.Calm.leavesActivity {op : Operation} (h : op.Calm) : op.LeavesActivity := by
  cases op with
  | setActive => exact h.elim
  | _ => trivial

/-- **A ledger keeps the books**: own stakes are what is bonded, and all other stakes follow. -/
structure Ledger.Books (L : Ledger) (bonds : AccountId → SortedMap String Amount) : Prop where
  /-- The stakes are right. -/
  staked : Roster.Staked L.records fun a => bondedUnits (bonds a)
  /-- Activity follows the stakes. -/
  active : Roster.ActiveByStake L.records

/-- Nothing is bonded by a report that fails. -/
theorem Ledger.Books.of_error {store : Store} {L : Ledger}
    {bonds : AccountId → SortedMap String Amount} {r : Report} {e : Error} {result : Except Error Unit}
    (books : L.Books bonds) (failed : result = .error e) :
    L.Books fun a =>
      if a = r.delegator ∧ store.Registered a ∧ result = .ok () then r.bonded bonds else bonds a := by
  simpa only [failed, reduceCtorEq, and_false, if_false] using books

/-- A report that begins with what is bonded moves the sum of it by its difference. -/
theorem Report.Continues.bondedUnits_eq {r : Report} {bonds : AccountId → SortedMap String Amount}
    (h : r.Continues bonds) :
    (bondedUnits (r.bonded bonds) : Int) = bondedUnits (bonds r.delegator) + r.change := by
  have htotal := (bonds r.delegator).total_insert r.validator r.new fun _ amount => amount.units
  have hold : r.old.units =
      (((bonds r.delegator).get? r.validator).map fun amount => amount.units).getD 0 := by
    rw [show r.old = _ from h]
    cases (bonds r.delegator).get? r.validator <;> rfl
  rw [← hold] at htotal
  rw [Report.change, bondedUnits, bondedUnits, Report.bonded]
  omega

namespace Forest

variable {host : Host} {store : Store} {L : Ledger} {bonds : AccountId → SortedMap String Amount}

/-- An account is of the forest if it has a record. -/
theorem registered_iff (keeps : (World.ofStore store).Keeps L) {a : AccountId} :
    store.Registered a ↔ (L.records.get? a).isSome = true := by
  rw [Store.Registered, keeps.run_hasRecord]
  exact ⟨Except.ok.inj, congrArg _⟩

/-- **A turn that leaves stakes alone** keeps the books. -/
theorem books_of_turn (quiet : host.Quiet) (keeps : (World.ofStore store).Keeps L)
    (inStep : L.InStep) (books : L.Books bonds) {turn : Turn} (calm : turn.operation.Calm) :
    ∃ L', (World.ofStore (turn.outcome host store).2.store).Keeps L' ∧ L'.InStep ∧ L'.Books bonds := by
  obtain ⟨L', hkeeps, hstep, ⟨-, rfl⟩ | ⟨hok, ms, hmakes, hpath⟩⟩ :=
    keeps_outcome quiet keeps inStep turn
  · exact ⟨L', hkeeps, hstep, books⟩
  · obtain ⟨hstaked, hactive⟩ := turn.staked_of_taken calm.leavesActivity keeps (Prod.ext hok rfl)
      hmakes hpath books.staked books.active
    refine ⟨L', hkeeps, hstep, hstaked.congr fun a => ?_, hactive⟩
    rw [Turn.stakeGained_of_calm calm, Int.add_zero]

/-- **A report** keeps the books: if it succeeds, what it reports is bonded from then on. The report is a
stake change, and what that gains the account is its difference. -/
theorem books_of_report (quiet : host.Quiet) (keeps : (World.ofStore store).Keeps L)
    (inStep : L.InStep) (books : L.Books bonds) {r : Report}
    (continues : store.Registered r.delegator → r.Continues bonds) :
    ∃ L', (World.ofStore (r.outcome host store).2.store).Keeps L' ∧ L'.InStep ∧
      L'.Books fun a =>
        if a = r.delegator ∧ store.Registered a ∧ (r.outcome host store).1 = .ok () then r.bonded bonds
        else bonds a := by
  by_cases hrange : r.change.natAbs < 2 ^ 127
  · rw [Report.outcome_of_lt hrange]
    obtain ⟨L', hkeeps, hstep, ⟨⟨e, hfailed⟩, rfl⟩ | ⟨hok, ms, hmakes, hpath⟩⟩ :=
      keeps_outcome quiet keeps inStep r.turn
    · exact ⟨L', hkeeps, hstep, books.of_error hfailed⟩
    · obtain ⟨hstaked, hactive⟩ :=
        r.turn.staked_of_taken trivial keeps (Prod.ext hok rfl) hmakes hpath books.staked books.active
      refine ⟨L', hkeeps, hstep, hstaked.congr fun a => ?_, hactive⟩
      rw [Turn.stakeGained_of_changeStake rfl (Prod.ext hok rfl) keeps]
      by_cases hgains : a = r.delegator ∧ store.Registered a
      · obtain ⟨rfl, hregistered⟩ := hgains
        rw [if_pos ⟨rfl, hregistered, hok⟩, if_pos ⟨rfl, (registered_iff keeps).mp hregistered⟩]
        exact (continues hregistered).bondedUnits_eq
      · rw [if_neg fun h => hgains ⟨h.1, h.2.1⟩, if_neg, Int.add_zero]
        rintro ⟨rfl, hsome⟩
        exact hgains ⟨rfl, (registered_iff keeps).mpr hsome⟩
  · have hfailed := Report.outcome_of_le (Nat.le_of_not_lt hrange) host keeps.free
    have hsame : (r.outcome host store).2.store = store :=
      World.transact_error keeps.free (Prod.ext hfailed rfl)
    rw [hsame]
    exact ⟨L, keeps, inStep, books.of_error hfailed⟩

/-- **A chained history** keeps the books. -/
theorem exists_books (quiet : host.Quiet) {past : List Incident} (calm : ∀ i ∈ past, i.Calm)
    (chained : Chained host past) :
    ∃ L, (World.ofStore (afterAll host past)).Keeps L ∧ L.InStep ∧ L.Books (Forest.bonds host past) := by
  induction past with
  | nil => exact ⟨.empty, keeps_empty, .empty, .empty, .empty⟩
  | cons incident earlier ih =>
      obtain ⟨hcalm, hearlier⟩ := List.forall_mem_cons.mp calm
      cases incident with
      | turn turn =>
          obtain ⟨L, hkeeps, hstep, hbooks⟩ := ih hearlier chained
          exact books_of_turn quiet hkeeps hstep hbooks hcalm
      | report r =>
          obtain ⟨L, hkeeps, hstep, hbooks⟩ := ih hearlier chained.2
          exact books_of_report quiet hkeeps hstep hbooks chained.1

/-! ### What reports fail for -/

/-- What a report in range fails for, if it fails for a quantity that cannot leave its range above the
account. -/
theorem of_outcome_report (keeps : (World.ofStore store).Keeps L) {r : Report} {e : Error}
    {quantity : String} (hq : quantity ∉ Cascade.quantitiesAbove) (range : r.change.natAbs < 2 ^ 127)
    (failed : (r.outcome host store).1 = .error e) (he : e.quantity? = some quantity) :
    e = .update r.delegator .mutate (.overflow "self delegation") ∧
      ∃ q, L.records.get? r.delegator = some q ∧ q.selfStake.shift? r.change = none := by
  rw [Report.outcome_of_lt range, Turn.outcome, World.fst_transact keeps.free] at failed
  exact keeps.branch.of_run_changeStake hq (Prod.ext failed rfl) he

/-- **A report is refused as such** just if its difference is out of range. -/
theorem outcome_report_eq_overflow_iff (keeps : (World.ofStore store).Keeps L) {r : Report} :
    (r.outcome host store).1 = .error (.overflow "stake delta") ↔ 2 ^ 127 ≤ r.change.natAbs := by
  refine ⟨fun failed => ?_, fun range => Report.outcome_of_le range host keeps.free⟩
  by_contra! range
  obtain ⟨he, -⟩ := of_outcome_report keeps (by decide) range failed rfl
  contradiction

/-- **A report that is not refused** and begins with what is bonded fails for the own stake just if the
sum is out of range. -/
theorem outcome_report_eq_update_iff (keeps : (World.ofStore store).Keeps L) (books : L.Books bonds)
    {r : Report} (registered : store.Registered r.delegator) (continues : r.Continues bonds)
    (range : r.change.natAbs < 2 ^ 127) :
    (r.outcome host store).1 = .error (.update r.delegator .mutate (.overflow "self delegation")) ↔
      2 ^ 128 ≤ bondedUnits (r.bonded bonds) := by
  obtain ⟨q, hq⟩ := Option.isSome_iff_exists.mp ((registered_iff keeps).mp registered)
  have hself := books.staked.self r.delegator
  rw [Roster.selfUnits_of_get? hq] at hself
  have hsum := continues.bondedUnits_eq
  have hexcess : q.selfStake.shift? r.change = none ↔ 2 ^ 128 ≤ bondedUnits (r.bonded bonds) := by
    rw [Amount.shift?_eq_none_iff]
    omega
  rw [← hexcess]
  constructor
  · intro failed
    obtain ⟨-, q', hq', hexcess'⟩ := of_outcome_report keeps (by decide) range failed rfl
    obtain rfl := Option.some.inj (hq.symm.trans hq')
    exact hexcess'
  · intro hnone
    obtain ⟨w', hrun⟩ := keeps.branch.run_changeStake_of_excess hq hnone
    rw [Report.outcome_of_lt range, Turn.outcome, World.fst_transact keeps.free]
    exact congrArg Prod.fst hrun

/-- **The own stakes follow the reports** after every history in which stakes change by reports only, and
the reports are chained. -/
theorem delegates_after (quiet : host.Quiet) {past : List Incident} (calm : ∀ i ∈ past, i.Calm)
    (chained : Chained host past) :
    (afterAll host past).Delegates host (Forest.bonds host past) := by
  obtain ⟨L, hkeeps, -, hbooks⟩ := exists_books quiet calm chained
  refine ⟨⟨L.records, holds_of_keeps hkeeps, fun a q found => ?_⟩,
    fun r => outcome_report_eq_overflow_iff hkeeps,
    fun r registered continues range =>
      outcome_report_eq_update_iff hkeeps hbooks registered continues range,
    fun r e failed he => ?_⟩
  · have hself := hbooks.staked.self a
    rw [Roster.selfUnits_of_get? found] at hself
    exact Int.ofNat.inj hself
  · have range : r.change.natAbs < 2 ^ 127 := by
      by_contra! hout
      have hrefused := Report.outcome_of_le hout host hkeeps.free
      obtain rfl := Except.error.inj (failed.symm.trans hrefused)
      simp [Error.quantity?] at he
    obtain ⟨heq, q, hq, -⟩ := of_outcome_report hkeeps (by decide) range failed he
    exact ⟨(registered_iff hkeeps).mpr (by rw [hq]; rfl), heq⟩

end Forest

namespace SmallHistory

/-- The leaf delegates to two validators while the forest goes on, takes part of it back, and reports a
difference out of range; latest first. -/
def delegations : List Incident :=
  [.report ⟨⟨30⟩, leaf, "east", .zero, ⟨2 ^ 127, by decide⟩⟩,
    .turn ⟨⟨900⟩, .beginBlock⟩,
    .report ⟨⟨25⟩, leaf, "north", ⟨150000000, by decide⟩, ⟨20000000, by decide⟩⟩,
    .report ⟨⟨22⟩, leaf, "south", .zero, ⟨7, by decide⟩⟩,
    .report ⟨⟨20⟩, leaf, "north", .zero, ⟨150000000, by decide⟩⟩,
    .turn ⟨⟨10⟩, .append root leaf⟩,
    .turn ⟨⟨0⟩, .addRoot root .new⟩]

end SmallHistory

/-- The own stakes follow the reports of the small history: the leaf is left with two bonds, and the
last report is refused. -/
theorem Forest.delegates_after_small :
    (Host.standalone.Quiet ∧ (∀ i ∈ SmallHistory.delegations, i.Calm) ∧
        Chained Host.standalone SmallHistory.delegations) ∧
      (afterAll Host.standalone SmallHistory.delegations).Delegates Host.standalone
        (Forest.bonds Host.standalone SmallHistory.delegations) ∧
      (Forest.bonds Host.standalone SmallHistory.delegations SmallHistory.leaf).toList.map
        (fun e => (e.1, e.2.units)) = [("north", 20000000), ("south", 7)] := by
  have hcalm : ∀ i ∈ SmallHistory.delegations, i.Calm := by
    simp [SmallHistory.delegations, Incident.Calm, Operation.Calm]
  have hchained : Chained Host.standalone SmallHistory.delegations := by decide +kernel
  exact ⟨⟨Host.quiet_standalone, hcalm, hchained⟩,
    delegates_after Host.quiet_standalone hcalm hchained, by decide +kernel⟩

end ReferralForest

import ReferralForest.Proofs.Forest.Rebuilding
import ReferralForest.Proofs.Forest.Sharing

/-!
# Paying Fees

A payment of fees burns what nobody claims, pays everybody who claims something in one transfer, and
gives what is left. Every share is rounded down on its own. So nothing is created or lost, the
delegation loses no more than the whole award rounded down, and what the shares lack of that is less
than one unit for each of them.

Where the bank and the codec accept everything, a payment fails just where the split does. It is then
described as a whole: what it asks of the bank, what it tells, and what it gives.

## Main definitions

* `Payment`, `Payment.entries` — what is paid for a delegation, and the log of it.
* `Payment.Covers` — a payment of the whole of a delegation, as a split shares it out.
* `Store.Pays` — what a store answers when it is asked to pay fees.

## Main statements

* `World.run_payFees` — a payment covers the delegation.
* `Payment.Covers.total_le`, `Payment.Covers.le_total_add`, `Payment.Covers.lt_total_add` — what is left
  of it, up to rounding.
* `Forest.pays_after` — payments after every history.
-/

namespace ReferralForest

/-- What a fee on a delegation comes to, in whole units. -/
def Fee.units (fee : Fee) (total : Amount) : Nat := ⌊fee.ratio.value * total.units⌋₊

/-- What is paid for a delegation. -/
structure Payment where
  /-- The address of who delegates. -/
  sender : List UInt8
  /-- What is burned. -/
  burned : Amount
  /-- Who gets a fee, and how much, nearest first. -/
  shares : List (AccountId × Amount)
  /-- The fees together. -/
  paid : Amount
  /-- The fees as the bank is asked for them. -/
  outputs : List Payout
  /-- What is left. -/
  rest : Amount

namespace Payment

/-- The line about a fee. -/
def line (host : Host) (payer : AccountId) (share : AccountId × Amount) : Entry :=
  .notice (.feePaid payer share.1 ⟨host.bondDenom, share.2⟩)

/-- The lines about what is burned: it goes to the module and is burned there, unless it is nothing. -/
def burnEntries (host : Host) (sender : List UInt8) (burned : Amount) : List Entry :=
  if burned.units = 0 then []
  else [.transfer (.toModule sender host.moduleAccount [⟨host.bondDenom, burned⟩]),
    .transfer (.burn host.moduleAccount [⟨host.bondDenom, burned⟩])]

/-- **The log of a payment**: what is burned, a line for each fee, and one transfer of all fees, unless
there are none. -/
def entries (host : Host) (payer : AccountId) (p : Payment) : List Entry :=
  burnEntries host p.sender p.burned ++ p.shares.map (line host payer) ++
    if p.outputs = [] then []
    else [.transfer (.payOut p.sender [⟨host.bondDenom, p.paid⟩] p.outputs)]

/-- **A payment covers a delegation**, as a split shares it out: each share is rounded down, those that
come to nothing are left out, and all that is burned, paid or left is the whole of it. -/
structure Covers (host : Host) (payer : AccountId) (total : Amount) (split : FeeSplit) (p : Payment) :
    Prop where
  /-- The sender is who delegates. -/
  sender : host.addressOf payer = .ok p.sender
  /-- What nobody claims is burned. -/
  burned : p.burned.units = ⌊split.burn.value * total.units⌋₊
  /-- The fees are paid, in their order. -/
  shares : p.shares.map (fun e => (e.1, e.2.units)) =
    (split.fees.map fun fee => (fee.beneficiary, fee.units total)).filter (·.2 ≠ 0)
  /-- The transfer is for the fees. -/
  outputs : p.outputs.map (fun o => (Except.ok o.address, o.coins)) =
    p.shares.map fun e => (host.addressOf e.1, [⟨host.bondDenom, e.2⟩])
  /-- The transfer takes from the sender what it gives to the others. -/
  paid : p.paid.units = (p.shares.map fun e => e.2.units).sum
  /-- Nothing is created or lost. -/
  rest : p.rest.units + p.burned.units + p.paid.units = total.units

end Payment

/-- Nothing has no units. -/
@[simp] theorem Amount.units_zero : zero.units = 0 := rfl

/-- What is left of an amount. -/
theorem Amount.sub?_eq_some {a b c : Amount} (h : c.units + b.units = a.units) :
    a.sub? b = some c := by
  rw [sub?, if_pos (by omega), ofNat?_eq_some_iff]
  omega

/-! ### Rounding -/

/-- A sum does not change if what comes to nothing is left out. -/
theorem sum_filter_ne_zero {α : Type} (l : List (α × Nat)) :
    ((l.filter (·.2 ≠ 0)).map Prod.snd).sum = (l.map Prod.snd).sum := by
  induction l with
  | nil => rfl
  | cons e rest ih =>
      rw [List.filter_cons, List.map_cons, List.sum_cons, ← ih]
      split
      next => rw [List.map_cons, List.sum_cons]
      next hzero =>
          have hnone : e.2 = 0 := by simpa using hzero
          rw [hnone, zero_add]

namespace FeeSplit

variable {split : FeeSplit} {total : Amount}

/-- What all of a split stands for. -/
def value (split : FeeSplit) : ℚ := split.burn.value + (split.fees.map fun fee => fee.ratio.value).sum

/-- The shares of a split in a delegation, what is burned first. -/
def shares (split : FeeSplit) (total : Amount) : List ℚ :=
  split.burn.value * total.units :: split.fees.map fun fee => fee.ratio.value * total.units

/-- The shares of a split come to its value, in the units of the delegation. -/
theorem sum_shares (split : FeeSplit) (total : Amount) :
    (split.shares total).sum = split.value * total.units := by
  rw [shares, List.sum_cons, List.sum_map_mul_right, value, add_mul]

/-- The shares, each rounded down. -/
theorem sum_floor_shares (split : FeeSplit) (total : Amount) :
    ((split.shares total).map fun q => ⌊q⌋₊).sum =
      ⌊split.burn.value * total.units⌋₊ + (split.fees.map fun fee => fee.units total).sum := by
  rw [shares, List.map_cons, List.sum_cons, List.map_map]
  rfl

/-- **Shares rounded down** are together no more than all of a split rounded down. -/
theorem floor_add_sum_le (split : FeeSplit) (total : Amount) :
    ⌊split.burn.value * total.units⌋₊ + (split.fees.map fun fee => fee.units total).sum ≤
      ⌊split.value * total.units⌋₊ := by
  rw [← sum_floor_shares, ← sum_shares]
  refine sum_floor_le fun q hq => ?_
  rcases List.mem_cons.mp hq with rfl | hq
  · exact mul_nonneg split.burn.value_nonneg total.units.cast_nonneg
  · obtain ⟨fee, -, rfl⟩ := List.mem_map.mp hq
    exact mul_nonneg fee.ratio.value_nonneg total.units.cast_nonneg

/-- No more is taken of a delegation than there is, if a split comes to no more than the whole. -/
theorem floor_add_sum_le_units (whole : split.value ≤ 1) (total : Amount) :
    ⌊split.burn.value * total.units⌋₊ + (split.fees.map fun fee => fee.units total).sum ≤
      total.units := by
  refine (split.floor_add_sum_le total).trans (Nat.floor_le_of_le ?_)
  exact mul_le_of_le_one_left total.units.cast_nonneg whole

/-- Rounding down takes less than one unit of each share. -/
theorem floor_le_floor_add_sum_add (split : FeeSplit) (total : Amount) :
    ⌊split.value * total.units⌋₊ ≤ ⌊split.burn.value * total.units⌋₊ +
      (split.fees.map fun fee => fee.units total).sum + split.fees.length := by
  have hlt := floor_sum_lt (l := split.shares total) (List.cons_ne_nil _ _)
  rw [sum_floor_shares, sum_shares, shares, List.length_cons, List.length_map] at hlt
  omega

/-- If nothing is burned, nothing is lost in rounding it. -/
theorem floor_lt_sum_add (nothing : split.burn.value = 0) (some : split.fees ≠ []) (total : Amount) :
    ⌊split.value * total.units⌋₊ <
      (split.fees.map fun fee => fee.units total).sum + split.fees.length := by
  have hlt := floor_sum_lt (l := split.fees.map fun fee => fee.ratio.value * total.units)
    (List.map_eq_nil_iff.not.mpr some)
  rw [List.sum_map_mul_right, List.map_map, List.length_map] at hlt
  rw [value, nothing, zero_add]
  exact hlt

end FeeSplit

/-- Those who get something get all that the fees come to. -/
theorem sum_units_of_shares {fees : List Fee} {total : Amount} {shares : List (AccountId × Amount)}
    (h : shares.map (fun e => (e.1, e.2.units)) =
      (fees.map fun fee => (fee.beneficiary, fee.units total)).filter (·.2 ≠ 0)) :
    (shares.map fun e => e.2.units).sum = (fees.map fun fee => fee.units total).sum := by
  have hsecond := congrArg (fun l => (l.map Prod.snd).sum) h
  rwa [sum_filter_ne_zero, List.map_map, List.map_map] at hsecond

namespace Payment.Covers

variable {host : Host} {payer : AccountId} {total : Amount} {split : FeeSplit} {p : Payment}

/-- The fees together are those of the split. -/
theorem paid_eq (h : p.Covers host payer total split) :
    p.paid.units = (split.fees.map fun fee => fee.units total).sum :=
  h.paid.trans (sum_units_of_shares h.shares)

/-- Whoever is listed gets something. -/
theorem units_ne_zero (h : p.Covers host payer total split) {share : AccountId × Amount}
    (hshare : share ∈ p.shares) : share.2.units ≠ 0 := by
  have hmem := List.mem_map_of_mem (f := fun e => (e.1, e.2.units)) hshare
  rw [h.shares] at hmem
  simpa using (List.mem_filter.mp hmem).2

/-- There is a transfer just if there is something to pay. -/
theorem outputs_eq_nil_iff (h : p.Covers host payer total split) :
    p.outputs = [] ↔ p.paid.units = 0 := by
  have hlength := congrArg List.length h.outputs
  rw [List.length_map, List.length_map] at hlength
  rw [← List.length_eq_zero_iff, hlength, List.length_eq_zero_iff, h.paid]
  refine ⟨fun hnone => by rw [hnone]; rfl, fun hzero => ?_⟩
  refine List.eq_nil_iff_forall_not_mem.mpr fun share hshare => h.units_ne_zero hshare ?_
  exact List.sum_eq_zero_iff.mp hzero _ (List.mem_map_of_mem hshare)

/-- **What a delegation loses** is at most the whole of the split rounded down. -/
theorem total_le (h : p.Covers host payer total split) :
    total.units ≤ p.rest.units + ⌊split.value * total.units⌋₊ := by
  have hle := split.floor_add_sum_le total
  have hrest := h.rest
  rw [h.paid_eq, h.burned] at hrest
  omega

/-- **What a delegation keeps by rounding** is at most one unit for each fee. -/
theorem le_total_add (h : p.Covers host payer total split) :
    p.rest.units + ⌊split.value * total.units⌋₊ ≤ total.units + split.fees.length := by
  have hle := split.floor_le_floor_add_sum_add total
  have hrest := h.rest
  rw [h.paid_eq, h.burned] at hrest
  omega

/-- It is less than one unit for each level, as nothing is burned where all levels are claimed. -/
theorem lt_total_add (h : p.Covers host payer total split) (few : split.fees.length ≤ maxDepth)
    (claimed : split.fees.length = maxDepth → split.burn.value = 0) :
    p.rest.units + ⌊split.value * total.units⌋₊ < total.units + maxDepth := by
  rcases few.lt_or_eq with hlt | heq
  · exact h.le_total_add.trans_lt (Nat.add_lt_add_left hlt _)
  · have hsome : split.fees ≠ [] := by
      rintro hnone
      rw [hnone] at heq
      contradiction
    have hlt := FeeSplit.floor_lt_sum_add (claimed heq) hsome total
    have hrest := h.rest
    rw [h.paid_eq] at hrest
    omega

end Payment.Covers

/-! ### Programs -/

namespace World

open Forest

variable {host : Host} {w : World} {total : Amount}

/-- A transfer that the bank accepts. -/
theorem run_transfer {t : Transfer} (granted : host.bank.refusal? t = none) :
    w.run (host.transfer t) = (.ok (), { w with log := w.log ++ [.transfer t] }) := by
  rw [Host.transfer, granted]
  exact run_tell w _

/-- Burning, if the bank accepts everything. -/
theorem run_burnShare (granted : ∀ t, host.bank.refusal? t = none) (sender : List UInt8)
    (burned : Amount) :
    w.run (burnShare host sender burned) =
      (.ok (), { w with log := w.log ++ Payment.burnEntries host sender burned }) := by
  rw [burnShare, Payment.burnEntries]
  split
  next => simp
  next =>
      rw [burnCoins, run_bind_of_ok (run_transfer (granted _)), run_transfer (granted _)]
      simp

/-- A fee of some units is told, and paid with the others. -/
theorem run_preparePayouts_cons {payer : AccountId} {fee : Fee} {rest : List Fee}
    {paid amount sum last : Amount} {bytes : List UInt8} {outputs : List Payout} {w' : World}
    (hunits : fee.units total = amount.units) (hsome : fee.units total ≠ 0)
    (hsum : paid.add? amount = some sum) (haddress : host.addressOf fee.beneficiary = .ok bytes)
    (hrest : World.run { w with log := w.log ++ [Payment.line host payer (fee.beneficiary, amount)] }
      (preparePayouts host payer total rest sum) = (.ok (outputs, last), w')) :
    w.run (preparePayouts host payer total (fee :: rest) paid) =
      (.ok (⟨bytes, [⟨host.bondDenom, amount⟩]⟩ :: outputs, last), w') := by
  have hparsed : w.run (.ofExcept (host.addressOf fee.beneficiary)) = (.ok bytes, w) := by
    rw [run_ofExcept, haddress]
  rw [preparePayouts, fee.ratio.mulFloor_eq_floor, ← Fee.units, if_neg hsome, hunits,
    Amount.ofNat?_eq_some_iff.mpr rfl]
  dsimp only
  rw [hsum]
  dsimp only
  rw [run_bind_of_ok hparsed]
  exact (run_bind_of_ok (run_tell w _) _).trans (run_bind_of_ok hrest _)

/-- **Preparing payouts** gives those who get something a line each, and adds up what they get. -/
theorem run_preparePayouts (payer : AccountId) {fees : List Fee}
    (accepted : ∀ fee ∈ fees, ∃ bytes, host.addressOf fee.beneficiary = .ok bytes) {paid : Amount}
    (fits : paid.units + (fees.map fun fee => fee.units total).sum < doubleWordSize) :
    ∃ (shares : List (AccountId × Amount)) (outputs : List Payout) (sum : Amount),
      w.run (preparePayouts host payer total fees paid) =
        (.ok (outputs, sum), { w with log := w.log ++ shares.map (Payment.line host payer) }) ∧
      shares.map (fun e => (e.1, e.2.units)) =
        (fees.map fun fee => (fee.beneficiary, fee.units total)).filter (·.2 ≠ 0) ∧
      outputs.map (fun o => (Except.ok o.address, o.coins)) =
        shares.map (fun e => (host.addressOf e.1, [⟨host.bondDenom, e.2⟩])) ∧
      sum.units = paid.units + (shares.map fun e => e.2.units).sum := by
  induction fees generalizing paid w with
  | nil => exact ⟨[], [], paid, by simp [preparePayouts], rfl, rfl, rfl⟩
  | cons fee rest ih =>
      have hrest : ∀ f ∈ rest, ∃ bytes, host.addressOf f.beneficiary = .ok bytes :=
        fun f hf => accepted f (List.mem_cons_of_mem _ hf)
      rw [List.map_cons, List.sum_cons] at fits
      rw [List.map_cons, List.filter_cons]
      by_cases hzero : fee.units total = 0
      · rw [preparePayouts, fee.ratio.mulFloor_eq_floor, ← Fee.units, if_pos hzero,
          if_neg (by simpa using hzero)]
        exact ih hrest (by omega)
      · obtain ⟨bytes, hbytes⟩ := accepted fee List.mem_cons_self
        let amount : Amount := ⟨fee.units total, by omega⟩
        let sum : Amount := ⟨paid.units + fee.units total, by omega⟩
        obtain ⟨shares, outputs, last, hrun, hshares, houtputs, hlast⟩ :=
          ih (w := { w with log := w.log ++ [Payment.line host payer (fee.beneficiary, amount)] })
            hrest (show sum.units + _ < doubleWordSize from (Nat.add_assoc _ _ _).trans_lt fits)
        refine ⟨(fee.beneficiary, amount) :: shares, ⟨bytes, [⟨host.bondDenom, amount⟩]⟩ :: outputs,
          last, ?_, ?_, ?_, ?_⟩
        · rw [run_preparePayouts_cons rfl hzero (Amount.ofNat?_eq_some_iff.mpr rfl) hbytes hrun]
          simp
        · rw [if_pos (by simpa using hzero), List.map_cons, hshares]
        · rw [List.map_cons, List.map_cons, houtputs, hbytes]
        · rw [hlast, List.map_cons, List.sum_cons, ← Nat.add_assoc]

/-- **A payment covers the delegation** if the split comes to no more than the whole, and bank and codec
accept everything. All that is taken is no more than the delegation, so it is in range. -/
theorem run_payFees (total : Amount) (granted : ∀ t, host.bank.refusal? t = none) {payer : AccountId}
    {split : FeeSplit} (hsplit : w.run (feeSplit payer) = (.ok split, w)) (whole : split.value ≤ 1)
    (accepted : ∃ bytes, host.addressOf payer = .ok bytes)
    (payees : ∀ fee ∈ split.fees, ∃ bytes, host.addressOf fee.beneficiary = .ok bytes) :
    ∃ payment : Payment, payment.Covers host payer total split ∧
      w.run (payFees host payer total) =
        (.ok payment.rest, { w with log := w.log ++ payment.entries host payer }) := by
  obtain ⟨sender, hsender⟩ := accepted
  have haddress : w.run (.ofExcept (host.addressOf payer)) = (.ok sender, w) := by
    rw [run_ofExcept, hsender]
  have hle := FeeSplit.floor_add_sum_le_units whole total
  have hlt := total.units_lt
  let burned : Amount := ⟨⌊split.burn.value * total.units⌋₊, by omega⟩
  have hburned : Amount.ofNat? (split.burn.mulFloor total.units) = some burned := by
    rw [split.burn.mulFloor_eq_floor]
    exact Amount.ofNat?_eq_some_iff.mpr rfl
  let w₁ : World := { w with log := w.log ++ Payment.burnEntries host sender burned }
  have hburn : w.run (burnShare host sender burned) = (.ok (), w₁) := run_burnShare granted sender burned
  have hfits : Amount.zero.units + (split.fees.map fun fee => fee.units total).sum < doubleWordSize := by
    rw [Amount.units_zero]
    omega
  obtain ⟨shares, outputs, paid, hprepare, hshares, houtputs, hpaid⟩ :=
    run_preparePayouts (w := w₁) payer payees hfits
  rw [Amount.units_zero, zero_add] at hpaid
  have hsum := sum_units_of_shares hshares
  have hwhole : burned.units + paid.units ≤ total.units := by
    rw [hpaid, hsum]
    exact hle
  let rest : Amount := ⟨total.units - burned.units - paid.units, by omega⟩
  let left : Amount := ⟨total.units - burned.units, by omega⟩
  have hrest : (total.sub? burned).bind (·.sub? paid) = some rest := by
    rw [Amount.sub?_eq_some (c := left) (Nat.sub_add_cancel (by omega)), Option.bind_some]
    exact Amount.sub?_eq_some (Nat.sub_add_cancel (by omega))
  let payment : Payment := ⟨sender, burned, shares, paid, outputs, rest⟩
  have hcovers : payment.Covers host payer total split :=
    ⟨hsender, rfl, hshares, houtputs, hpaid, by simp only [payment, rest]; omega⟩
  refine ⟨payment, hcovers, ?_⟩
  rw [payFees, run_bind_of_ok hsplit, run_bind_of_ok haddress, hburned]
  dsimp only
  rw [run_bind_of_ok hburn, run_bind_of_ok hprepare]
  dsimp only
  rw [hrest, Payment.entries]
  by_cases hnone : paid.units = 0
  · rw [if_neg (not_not.mpr hnone), if_pos (hcovers.outputs_eq_nil_iff.mpr hnone)]
    simp [w₁, payment]
  · rw [if_pos hnone, if_neg (hcovers.outputs_eq_nil_iff.not.mpr hnone)]
    refine (run_bind_of_ok (run_transfer (granted _)) _).trans ?_
    simp [w₁, payment]

end World

/-! ### Stores -/

/-- The address of an account that the codec accepts. -/
theorem Host.Accepts.exists_addressOf {host : Host} {a : AccountId} (h : host.Accepts a) :
    ∃ bytes, host.addressOf a = .ok bytes := by
  obtain ⟨bytes, hbytes⟩ := h
  exact ⟨bytes, by rw [Host.addressOf, hbytes]; rfl⟩

/-- Who claims an award has a record. -/
theorem Roster.get?_ne_none_of_mem_feesFrom {m : Roster} {a : AccountId} {level : Nat}
    {awards : List Fraction} {fee : Fee} (h : fee ∈ feesFrom m a level awards) :
    m.get? fee.beneficiary ≠ none := by
  obtain ⟨e, -, hfee⟩ := List.mem_filterMap.mp h
  obtain ⟨payee, hpayee, hsome⟩ := Option.bind_eq_some_iff.mp hfee
  have heq : payee = fee.beneficiary := by
    split at hsome
    next => contradiction
    next => exact congrArg Fee.beneficiary (Option.some.inj hsome)
  obtain ⟨ancestor, -, hclaims⟩ := Option.bind_eq_some_iff.mp hpayee
  obtain ⟨r, hr, hopens⟩ := Option.bind_eq_some_iff.mp hclaims
  split at hopens
  next =>
      obtain rfl := Option.some.inj hopens
      rw [← heq, hr]
      exact Option.some_ne_none r
  next => contradiction

/-- What is claimed and what is burned come to all awards. -/
theorem Roster.value_split {m : Roster} {a : AccountId} {awards : List Fraction} {burn : Fraction}
    (burns : burn.value = ((unclaimedFrom m a 0 awards).map Fraction.value).sum) :
    FeeSplit.value ⟨feesFrom m a 0 awards, burn⟩ = (awards.map Fraction.value).sum := by
  rw [← sum_feesFrom_add_sum_unclaimedFrom (m := m) (a := a) 0, FeeSplit.value, burns, add_comm]

/-- Where as many awards are claimed as there are, none is left. -/
theorem Roster.unclaimedFrom_eq_nil {m : Roster} {a : AccountId} {level : Nat} {awards : List Fraction}
    (h : (feesFrom m a level awards).length = awards.length) : unclaimedFrom m a level awards = [] := by
  have hlevels := length_feesFrom_add_le (m := m) (a := a) level awards
  exact List.length_eq_zero_iff.mp (by omega)

/-- **How a store pays fees** on a delegation of any size. What is claimed of it, and what is not, is
what the split says, and together it is the whole award; the payment covers the delegation, its log is
all that happens, and what is left is the delegation less the whole award, but for rounding. Where there
is no split there is no payment either. -/
def Store.Pays (host : Host) (store : Store) : Prop :=
  ∃ (m : Roster) (p : Params) (award : Fraction), store.Holds m ∧
    (World.ofStore store).run Program.params = (.ok p, World.ofStore store) ∧
    p.totalAward = .ok award ∧
    ∀ a, m.get? a ≠ none → ∀ total : Amount,
      (∃ (split : FeeSplit) (payment : Payment),
        (World.ofStore store).run (Forest.feeSplit a) = (.ok split, World.ofStore store) ∧
        split.fees = Roster.feesFrom m a 0 p.awards.toList ∧
        split.burn.value = ((Roster.unclaimedFrom m a 0 p.awards.toList).map Fraction.value).sum ∧
        split.value = award.value ∧
        (World.ofStore store).run (Forest.payFees host a total) =
          (.ok payment.rest, { World.ofStore store with log := payment.entries host a }) ∧
        payment.Covers host a total split ∧
        total.units ≤ payment.rest.units + ⌊award.value * total.units⌋₊ ∧
        payment.rest.units + ⌊award.value * total.units⌋₊ ≤ total.units + split.fees.length ∧
        payment.rest.units + ⌊award.value * total.units⌋₊ < total.units + maxDepth) ∨
      (World.ofStore store).run (Forest.feeSplit a) =
          (.error (.overflow "burn share"), World.ofStore store) ∧
        (World.ofStore store).run (Forest.payFees host a total) =
          (.error (.overflow "burn share"), World.ofStore store)

/-- The small host, with a bank that accepts everything. -/
def Host.banked : Host := { Host.standalone with bank := .recording none }

/-- Its listener writes nothing. -/
theorem Host.quiet_banked : Host.banked.Quiet := Host.quiet_standalone

/-- A referral enters below a root of the highest tier; latest first. -/
def SmallHistory.highTurns : List Turn :=
  [⟨⟨10⟩, .append root leaf⟩, ⟨⟨0⟩, .addRoot root .mega⟩]

namespace Forest

open Roster

variable {host : Host}

/-- **Payments after every history**, if the bank accepts everything, and the codec the addresses of all
accounts. -/
theorem pays_after (quiet : host.Quiet) (granted : ∀ t, host.bank.refusal? t = none) {turns : List Turn}
    (accepted : ∀ a, ((World.ofStore (after host turns)).run (Program.hasRecord a)).1 = .ok true →
      host.Accepts a) :
    (after host turns).Pays host := by
  obtain ⟨L, hkeeps, -, hforest, -, hvalid⟩ := exists_acceptable_after quiet turns
  obtain ⟨award, haward, -⟩ := Params.exists_totalAward hvalid
  refine ⟨L.records, L.params.getD .default, award, holds_of_keeps hkeeps, hkeeps.run_params, haward, ?_⟩
  intro a hfound total
  have hcodec : ∀ b, L.records.get? b ≠ none → ∃ bytes, host.addressOf b = .ok bytes := by
    intro b hb
    refine (accepted b ?_).exists_addressOf
    rw [hkeeps.run_hasRecord, Option.isSome_iff_ne_none.mpr hb]
  have hsplit := hkeeps.run_feeSplit hforest hfound
  rw [sharesFrom] at hsplit
  cases hburn : (unclaimedFrom L.records a 0 (L.params.getD .default).awards.toList).foldlM
      Fraction.add? .zero with
  | none =>
      rw [hburn] at hsplit
      exact .inr ⟨hsplit, World.run_bind_of_error hsplit _⟩
  | some burn =>
      rw [hburn] at hsplit
      have hvalue := Fraction.value_of_foldlM_add? hburn
      rw [Fraction.value_zero, zero_add] at hvalue
      have hall : FeeSplit.value ⟨feesFrom L.records a 0 (L.params.getD .default).awards.toList, burn⟩ =
          award.value :=
        (value_split hvalue).trans (Params.value_of_totalAward haward).symm
      have hwhole : award.value ≤ 1 := by
        rw [Params.value_of_totalAward haward]
        exact (Params.award_lt_one hvalid).le
      obtain ⟨payment, hcovers, hrun⟩ := World.run_payFees total granted hsplit
        (hall ▸ hwhole) (hcodec a hfound) fun fee hfee => hcodec _ (get?_ne_none_of_mem_feesFrom hfee)
      have hlevels := (Nat.le_add_right _ _).trans (length_feesFrom_add_le (m := L.records) (a := a) 0
        (L.params.getD .default).awards.toList)
      rw [Vector.length_toList] at hlevels
      refine .inl ⟨_, payment, hsplit, rfl, hvalue, hall, hrun, hcovers, hall ▸ hcovers.total_le,
        hall ▸ hcovers.le_total_add,
        hall ▸ hcovers.lt_total_add hlevels fun hfull => ?_⟩
      rw [hvalue, unclaimedFrom_eq_nil (hfull.trans Vector.length_toList.symm)]
      rfl

/-- Payments below a root of the highest tier: of 999 units the root gets 49, 99 are burned and 851 are
left. -/
theorem pays_after_small :
    Host.banked.Quiet ∧ (∀ t, Host.banked.bank.refusal? t = none) ∧ (∀ a, Host.banked.Accepts a) ∧
      (after Host.banked SmallHistory.highTurns).Pays Host.banked ∧
      ((World.ofStore (after Host.banked SmallHistory.highTurns)).run
        (payFees Host.banked SmallHistory.leaf ⟨999, by decide +kernel⟩)).1.map Amount.units = .ok 851 :=
  ⟨Host.quiet_banked, fun _ => rfl, Host.accepts_standalone,
    pays_after Host.quiet_banked (fun _ => rfl) fun a _ => Host.accepts_standalone a, by decide +kernel⟩

end Forest

end ReferralForest

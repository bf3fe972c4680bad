import ReferralForest.Forest.Fees
import ReferralForest.Proofs.Cascade.Orderly
import ReferralForest.Proofs.Forest.Operations

/-!
# Orderly Operations

Everything that can be asked of a forest calls the store with keys that are not empty and ends with the
first fatal refusal it meets, provided that the listeners leave the store alone.

## Main statements

* `Operation.orderly_program` — the operations that change a forest.
* `Forest.orderly_exportGenesis`, `Forest.orderly_visit`, `Forest.orderly_payFees` — writing a forest
  out, showing it to a visitor, and paying the fees on a delegation.
-/

namespace ReferralForest

namespace Forest

open Dialogue (Heeds heeds_ofExcept heeds_ofExcept_bind)
open Program (orderly_hasRecord orderly_record orderly_params orderly_range)

variable {host : Host}

/-! ### Membership -/

/-- Checking a placement is orderly. -/
theorem orderly_checkPlacement (p c : AccountId) : (checkPlacement p c).Orderly := by
  refine Heeds.bind (orderly_hasRecord c) fun taken => ?_
  cases taken with
  | true => trivial
  | false =>
      refine Heeds.bind (orderly_hasRecord p) fun placed => ?_
      cases placed <;> trivial

/-- **Adding a root** is orderly. -/
theorem orderly_addRoot (aloof : host.Aloof) (a : AccountId) (s : Status) :
    (addRoot host a s).Orderly := by
  refine Heeds.bind (orderly_hasRecord a) fun taken => ?_
  cases taken with
  | true => trivial
  | false => exact (Cascade.orderly_put a _).commit aloof

/-- **Adding a referral** is orderly. -/
theorem orderly_append (aloof : host.Aloof) (now : Timestamp) (p c : AccountId) :
    (append host now p c).Orderly :=
  Heeds.bind (orderly_checkPlacement p c) fun _ => (Cascade.orderly_register now p c).commit aloof

/-- **A request to register** is orderly. -/
theorem orderly_register (aloof : host.Aloof) (now : Timestamp) (request : Registration) :
    (register host now request).Orderly := by
  rw [register]
  dsimp only
  split
  · trivial
  · refine Heeds.bind (heeds_ofExcept _) fun p => ?_
    refine Heeds.bind (heeds_ofExcept _) fun c => ?_
    refine Heeds.bind (orderly_hasRecord p) fun placed => ?_
    split
    · trivial
    · exact orderly_append aloof now p c

/-- Listing the referrals of an account is orderly. -/
theorem orderly_children (a : AccountId) : (children a).Orderly :=
  Heeds.bind (orderly_range _) fun _ => heeds_ofExcept _

/-- Listing the roots is orderly. -/
theorem orderly_roots : roots.Orderly :=
  Heeds.bind (orderly_range _) fun _ => heeds_ofExcept _

/-! ### Blocks -/

/-- Handling entries of the queue is orderly; the key of each entry has nine bytes at least, so what takes
it off the queue names no empty key. -/
theorem orderly_drainEach (aloof : host.Aloof) (now : Timestamp) (due : List (Key × Value)) :
    (drainEach host now due).Orderly := by
  induction due with
  | nil => trivial
  | cons entry rest ih =>
      obtain ⟨key, value⟩ := entry
      refine heeds_ofExcept_bind fun entry hparse => ?_
      have hkey : key ≠ [] := by
        rintro rfl
        simp [Slot.parseDowngrade] at hparse
      refine Heeds.bind (Program.orderly_write hkey) fun _ => ?_
      exact Heeds.bind ((Cascade.orderly_downgrade now entry.2).commit aloof) fun _ => ih

/-- **Beginning a block** is orderly. -/
theorem orderly_beginBlock (aloof : host.Aloof) (now : Timestamp) :
    (beginBlock host now).Orderly := by
  have hdrain : (drain host now).Orderly :=
    Heeds.bind (orderly_range _) fun due =>
      Heeds.bind (orderly_drainEach aloof now due) fun _ => trivial
  exact Heeds.map hdrain _

/-! ### Parameters -/

/-- A request to change the parameters is orderly. -/
theorem orderly_updateParams (request : ParamsUpdate) : (updateParams host request).Orderly := by
  rw [updateParams]
  split
  · exact Program.orderly_setParams _
  · trivial

/-! ### Documents -/

/-- Reading in roots is orderly. -/
theorem orderly_importRoots (aloof : host.Aloof) (l : List Member) :
    (importRoots host l).Orderly := by
  induction l with
  | nil => trivial
  | cons m rest ih =>
      refine Heeds.bind (heeds_ofExcept _) fun a => ?_
      exact Heeds.bind (orderly_addRoot aloof a m.status) fun _ => ih

/-- Reading in the referrals of an account is orderly. -/
theorem orderly_importReferrals (aloof : host.Aloof) (p : AccountId) (l : List Member) :
    (importReferrals host p l).Orderly := by
  induction l with
  | nil => trivial
  | cons m rest ih =>
      refine Heeds.bind (heeds_ofExcept _) fun a => ?_
      have hcourse : Cascade.Orderly (do
          Cascade.put a (.fresh (some p) m.status)
          Cascade.relate p a) :=
        (Cascade.orderly_put a _).bind fun _ => Cascade.orderly_relate p a
      have hreferral : (importReferral host p a m.status).Orderly :=
        Heeds.bind (orderly_checkPlacement p a) fun _ => hcourse.commit aloof
      exact Heeds.bind hreferral fun _ => ih

/-- Reading in groups is orderly. -/
theorem orderly_importGroups (aloof : host.Aloof) (l : List Group) :
    (importGroups host l).Orderly := by
  induction l with
  | nil => trivial
  | cons g rest ih =>
      rw [importGroups]
      dsimp only
      split
      · trivial
      · refine Heeds.bind (heeds_ofExcept _) fun p => ?_
        exact Heeds.bind (orderly_importReferrals aloof p g.referrals) fun _ => ih

/-- Reading in the parts of a document is orderly. -/
theorem orderly_importParts (aloof : host.Aloof) (roots : List Member) (groups : List Group)
    (downgrades : List PendingDowngrade) : (importParts host roots groups downgrades).Orderly := by
  refine Heeds.bind (orderly_importRoots aloof roots) fun _ => ?_
  refine Heeds.bind (orderly_importGroups aloof groups) fun _ => ?_
  exact (Cascade.orderly_importDowngrades host downgrades).commit aloof

/-- **Reading in a document** is orderly. -/
theorem orderly_importGenesis (aloof : host.Aloof) (g : Genesis) :
    (importGenesis host g).Orderly := by
  refine Heeds.bind (heeds_ofExcept _) fun _ => ?_
  refine Heeds.bind (Program.orderly_setParams _) fun _ => ?_
  exact orderly_importParts aloof _ _ _

/-- Reading the records of listed accounts is orderly. -/
theorem orderly_withRecords (l : List AccountId) : (withRecords l).Orderly := by
  induction l with
  | nil => trivial
  | cons a rest ih =>
      exact Heeds.bind (orderly_record a) fun _ => Heeds.bind ih fun _ => trivial

/-- Writing out one level is orderly. -/
theorem orderly_exportLevel (l : List (AccountId × Record)) : (exportLevel l).Orderly := by
  induction l with
  | nil => trivial
  | cons entry rest ih =>
      refine Heeds.bind (orderly_children entry.1) fun found => ?_
      refine Heeds.bind (orderly_withRecords found) fun referrals => ?_
      exact Heeds.bind ih fun _ => trivial

/-- Writing out levels is orderly. -/
theorem orderly_exportLevels (bound : Nat) (level : List (AccountId × Record)) :
    (exportLevels bound level).Orderly := by
  induction bound generalizing level with
  | zero => cases level <;> trivial
  | succ bound ih =>
      cases level with
      | nil => trivial
      | cons entry rest =>
          refine Heeds.bind (orderly_exportLevel _) fun written => ?_
          exact Heeds.bind (ih written.below) fun _ => trivial

/-- **Writing a forest out** is orderly. -/
theorem orderly_exportGenesis : exportGenesis.Orderly := by
  refine Heeds.bind orderly_params fun p => ?_
  refine Heeds.bind orderly_roots fun accounts => ?_
  refine Heeds.bind (orderly_withRecords accounts) fun top => ?_
  refine Heeds.bind Program.orderly_size fun bound => ?_
  exact Heeds.bind (orderly_exportLevels bound top) fun _ => trivial

/-- **Showing a forest to a visitor** is orderly, whatever he does with it. -/
theorem orderly_visit {σ : Type} (aloof : host.Aloof) (now : Timestamp)
    (visitor : σ → AccountId → Record → σ × Visit) (s : σ) :
    (visit host now visitor s).Orderly :=
  Heeds.bind Program.orderly_allRecords fun records =>
    (Cascade.orderly_visit now visitor s records).commit aloof

/-! ### Fees -/

/-- Adding to what is burned asks nobody. -/
theorem orderly_addBurn (burn share : Fraction) : (addBurn burn share).Orderly := by
  rw [addBurn]
  split <;> trivial

/-- Handing out shares is orderly. -/
theorem orderly_splitFrom (level : Nat) (shares : List Fraction) (ancestor : Option AccountId)
    (burn : Fraction) : (splitFrom level shares ancestor burn).Orderly := by
  induction shares generalizing level ancestor burn with
  | nil => trivial
  | cons share rest ih =>
      cases ancestor with
      | none => exact Heeds.bind (orderly_addBurn burn share) fun _ => ih _ none _
      | some ancestor =>
          refine Heeds.bind (orderly_record ancestor) fun r => ?_
          split
          · exact Heeds.bind (ih _ _ burn) fun _ => trivial
          · exact Heeds.bind (orderly_addBurn burn share) fun _ => ih _ _ _

/-- **Sharing a delegation out** is orderly. -/
theorem orderly_feeSplit (a : AccountId) : (feeSplit a).Orderly :=
  Heeds.bind orderly_params fun _ => Heeds.bind (orderly_record a) fun _ => orderly_splitFrom _ _ _ _

/-- A transfer does not concern the store. -/
theorem orderly_transfer (t : Transfer) : (host.transfer t).Orderly := by
  rw [Host.transfer]
  split
  · trivial
  · exact Program.orderly_tell _

/-- Burning what nobody gets does not concern the store. -/
theorem orderly_burnShare (sender : List UInt8) (amount : Amount) :
    (burnShare host sender amount).Orderly := by
  rw [burnShare]
  split
  · trivial
  · exact Heeds.bind (orderly_transfer _) fun _ => orderly_transfer _

/-- Preparing payouts does not concern the store. -/
theorem orderly_preparePayouts (payer : AccountId) (total : Amount) (fees : List Fee)
    (paid : Amount) : (preparePayouts host payer total fees paid).Orderly := by
  induction fees generalizing paid with
  | nil => trivial
  | cons fee rest ih =>
      rw [preparePayouts]
      dsimp only
      split
      · exact ih paid
      · split
        · trivial
        · split
          · trivial
          · refine Heeds.bind (heeds_ofExcept _) fun address => ?_
            refine Heeds.bind (Program.orderly_tell _) fun _ => ?_
            exact Heeds.bind (ih _) fun _ => trivial

/-- **Paying the fees on a delegation** is orderly. -/
theorem orderly_payFees (a : AccountId) (total : Amount) : (payFees host a total).Orderly := by
  refine Heeds.bind (orderly_feeSplit a) fun split => ?_
  refine Heeds.bind (heeds_ofExcept _) fun sender => ?_
  cases Amount.ofNat? (split.burn.mulFloor total.units) with
  | none => trivial
  | some burned =>
      refine Heeds.bind (orderly_burnShare sender burned) fun _ => ?_
      refine Heeds.bind (orderly_preparePayouts a total split.fees .zero) fun prepared => ?_
      dsimp only
      split
      · refine Heeds.bind (orderly_transfer _) fun _ => ?_
        split <;> trivial
      · split <;> trivial

end Forest

open Forest in
/-- **The operations are orderly**, all of them. -/
theorem Operation.orderly_program {host : Host} (aloof : host.Aloof) (now : Timestamp)
    (op : Operation) : (op.program host now).Orderly := by
  cases op with
  | addRoot a s => exact orderly_addRoot aloof a s
  | append p c => exact orderly_append aloof now p c
  | register request => exact orderly_register aloof now request
  | importGenesis g => exact orderly_importGenesis aloof g
  | importParts roots groups downgrades => exact orderly_importParts aloof roots groups downgrades
  | changeStake a delta =>
      exact Dialogue.Heeds.bind Program.orderly_size fun bound =>
        (Cascade.orderly_changeStake now a delta bound).commit aloof
  | setActive a active checked => exact (Cascade.orderly_setActive _ a active).commit aloof
  | beginBlock => exact orderly_beginBlock aloof now
  | setParams p => exact Program.orderly_setParams p
  | updateParams request => exact orderly_updateParams request

end ReferralForest

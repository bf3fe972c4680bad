import ReferralForest.Proofs.Fraction.Rational
import ReferralForest.Proofs.Fraction.Words

/-!
# Shares of an Amount

A share of an amount is the amount times a numerator, divided by a denominator and rounded down. An amount may
fill a double word, and its multiple would need a word more. So the amount is first divided, with quotient and
remainder: the quotient times the numerator is a whole number of units, and only the remainder, which is below
the denominator, is multiplied and then divided.

A fraction up to one takes no more of an amount than there is. Then nothing on the way is out of range, however
large the amount and however large the parts of the fraction. Several shares lose less than one unit each in
rounding; as what they lack together is a whole number of units, it is less than their number.

## Main definitions

* `Words.mulFloor?` — a share, in words.

## Main statements

* `exists_mulFloor?` — no share of a fraction up to one leaves the range.
* `sum_mulFloor_le`, `mulFloor_lt_sum_add` — many shares, and the share of their sum.
* `shares_exact` — both together.
-/

namespace ReferralForest.Fraction

open DoubleWord

variable {f whole : Fraction} {l : List Fraction}

/-- **A share of an amount**, in words. The remainder of the amount is multiplied before it is divided. -/
def Words.mulFloor? (w : Words) (amount : DoubleWord) : Option DoubleWord := do
  let units ← mul? (amount / ofWord w.den) (ofWord w.num)
  let scaled ← mul? (amount % ofWord w.den) (ofWord w.num)
  DoubleWord.add? units (scaled / ofWord w.den)

/-! ### Range -/

/-- Up to one the numerator is no more than the denominator. -/
theorem num_le_den (atMost : f ≤ one) : f.num ≤ f.den := by
  have hcross : f.num * 1 ≤ 1 * f.den := atMost
  rwa [Nat.mul_one, Nat.one_mul] at hcross

/-- A fraction up to one takes no more than there is. -/
theorem mulFloor_le (atMost : f ≤ one) (n : Nat) : f.mulFloor n ≤ n := by
  rw [mulFloor_eq_div]
  exact Nat.div_le_of_le_mul (by rw [Nat.mul_comm f.den]; exact Nat.mul_le_mul_left n (num_le_den atMost))

/-- The units of the quotient are in range: they do not exceed the amount. -/
theorem div_mul_num_lt (atMost : f ≤ one) (amount : DoubleWord) :
    amount.toNat / f.den * f.num < doubleWordSize :=
  calc amount.toNat / f.den * f.num
      ≤ amount.toNat / f.den * f.den := Nat.mul_le_mul_left _ (num_le_den atMost)
    _ ≤ amount.toNat := Nat.div_mul_le_self _ _
    _ < doubleWordSize := toNat_lt amount

/-- The multiple of the remainder is in range: both its factors are words. -/
theorem mod_mul_num_lt (f : Fraction) (n : Nat) : n % f.den * f.num < doubleWordSize :=
  Nat.mul_lt_mul'' ((Nat.mod_lt n f.den_pos).trans f.den_lt) f.num_lt

/-- **No share of a fraction up to one leaves the range**, nor does anything on the way to it. -/
theorem exists_mulFloor? (atMost : f ≤ one) (amount : DoubleWord) :
    ∃ share, f.words.mulFloor? amount = some share ∧ share.toNat = f.mulFloor amount.toNat := by
  have hnum : (ofWord f.words.num).toNat = f.num := (toNat_ofWord _).trans f.toNat_num_words
  have hden : (ofWord f.words.den).toNat = f.den := (toNat_ofWord _).trans f.toNat_den_words
  have hunitsRange : (amount / ofWord f.words.den).toNat * (ofWord f.words.num).toNat < doubleWordSize := by
    rw [BitVec.toNat_udiv, hnum, hden]
    exact div_mul_num_lt atMost amount
  have hscaledRange : (amount % ofWord f.words.den).toNat * (ofWord f.words.num).toNat < doubleWordSize := by
    rw [BitVec.toNat_umod, hnum, hden]
    exact mod_mul_num_lt f amount.toNat
  obtain ⟨units, hunits, hunitsNat⟩ := exists_mul? hunitsRange
  obtain ⟨scaled, hscaled, hscaledNat⟩ := exists_mul? hscaledRange
  have hsum : units.toNat + (scaled / ofWord f.words.den).toNat = f.mulFloor amount.toNat := by
    rw [BitVec.toNat_udiv, hunitsNat, hscaledNat, BitVec.toNat_udiv, BitVec.toNat_umod, hnum, hden, mulFloor]
  obtain ⟨share, hshare, hshareNat⟩ :=
    exists_add? (hsum ▸ (mulFloor_le atMost amount.toNat).trans_lt (toNat_lt amount))
  refine ⟨share, ?_, hshareNat.trans hsum⟩
  rw [Words.mulFloor?, hunits, hscaled]
  exact hshare

/-! ### Many shares -/

/-- The exact shares of an amount add up to that of the sum. -/
theorem sum_map_value_mul (sum : (l.map value).sum = whole.value) (n : Nat) :
    (l.map fun f => f.value * (n : ℚ)).sum = whole.value * n := by
  rw [List.sum_map_mul_right, sum]

/-- The shares of an amount are the exact shares, each rounded down. -/
theorem map_floor_eq (l : List Fraction) (n : Nat) :
    ((l.map fun f => f.value * (n : ℚ)).map fun q => ⌊q⌋₊) = l.map fun f => f.mulFloor n := by
  rw [List.map_map]
  exact List.map_congr_left fun f _ => (f.mulFloor_eq_floor n).symm

/-- Fractions that add up to one up to one are each up to one. -/
theorem le_one_of_mem (sum : (l.map value).sum = whole.value) (atMost : whole ≤ one) (h : f ∈ l) :
    f ≤ one := by
  have hsummand : f.value ≤ (l.map value).sum := by
    refine List.single_le_sum (fun q hq => ?_) _ (List.mem_map_of_mem h)
    obtain ⟨g, -, rfl⟩ := List.mem_map.mp hq
    exact g.value_nonneg
  rw [sum] at hsummand
  exact le_iff.mpr (hsummand.trans (le_iff.mp atMost))

/-- **Many shares** are together no more than the share of the sum. -/
theorem sum_mulFloor_le (sum : (l.map value).sum = whole.value) (n : Nat) :
    (l.map fun f => f.mulFloor n).sum ≤ whole.mulFloor n := by
  rw [← map_floor_eq, mulFloor_eq_floor, ← sum_map_value_mul sum]
  refine sum_floor_le fun q hq => ?_
  obtain ⟨f, -, rfl⟩ := List.mem_map.mp hq
  exact mul_nonneg f.value_nonneg n.cast_nonneg

/-- **What many shares lack** of the share of the sum is less than their number. -/
theorem mulFloor_lt_sum_add (nonempty : l ≠ []) (sum : (l.map value).sum = whole.value) (n : Nat) :
    whole.mulFloor n < (l.map fun f => f.mulFloor n).sum + l.length := by
  have hlt := floor_sum_lt (List.map_eq_nil_iff.not.mpr nonempty : l.map (fun f => f.value * (n : ℚ)) ≠ [])
  rwa [map_floor_eq, sum_map_value_mul sum, ← mulFloor_eq_floor, List.length_map] at hlt

/-- **Shares are exact.** A fraction up to one has a share in every amount of a double word, no value on the
way to it is out of range, and it is the multiple of the amount divided by the denominator, rounded down. So if
some fractions, at least one, add up to a fraction up to one, then each has its share, the shares together are
no more than that of the sum, and what they lack is at most one unit less than there are of them. -/
theorem shares_exact (amount : DoubleWord) :
    (∀ f : Fraction, f ≤ one → ∃ share, f.words.mulFloor? amount = some share ∧
      share.toNat = f.mulFloor amount.toNat ∧ f.mulFloor amount.toNat = amount.toNat * f.num / f.den) ∧
    ∀ (l : List Fraction) (whole : Fraction), l ≠ [] → (l.map value).sum = whole.value → whole ≤ one →
      (∀ f ∈ l, f ≤ one) ∧
      (l.map fun f => f.mulFloor amount.toNat).sum ≤ whole.mulFloor amount.toNat ∧
      whole.mulFloor amount.toNat ≤ (l.map fun f => f.mulFloor amount.toNat).sum + (l.length - 1) := by
  refine ⟨fun f atMost => ?_, fun l whole nonempty sum atMost =>
    ⟨fun f => le_one_of_mem sum atMost, sum_mulFloor_le sum _, ?_⟩⟩
  · obtain ⟨share, hrun, hshare⟩ := exists_mulFloor? atMost amount
    exact ⟨share, hrun, hshare, f.mulFloor_eq_div _⟩
  · have hlt := mulFloor_lt_sum_add nonempty sum amount.toNat
    omega

/-- The greatest fraction below one. -/
def almostOne : Fraction := ofNonzero 18446744073709551614 18446744073709551615 (by decide)

/-- A third. -/
def third : Fraction := ofNonzero 1 3 (by decide)

/-- The share of the greatest fraction below one in the greatest amount, and three thirds of one unit less, which
lack as much as three shares may. -/
theorem shares_exact_brimful :
    (almostOne ≤ one ∧ ∃ share, almostOne.words.mulFloor? (.ofNat 128 (doubleWordSize - 1)) = some share ∧
      share.toNat = almostOne.mulFloor (doubleWordSize - 1) ∧
      almostOne.mulFloor (doubleWordSize - 1) =
        (doubleWordSize - 1) * 18446744073709551614 / 18446744073709551615) ∧
    [third, third, third] ≠ [] ∧ ([third, third, third].map value).sum = one.value ∧ one ≤ one ∧
      ([third, third, third].map fun f => f.mulFloor (doubleWordSize - 2)).sum ≤
        one.mulFloor (doubleWordSize - 2) ∧
      one.mulFloor (doubleWordSize - 2) ≤
        ([third, third, third].map fun f => f.mulFloor (doubleWordSize - 2)).sum + 2 := by
  have hone : almostOne ≤ one := by decide +kernel
  have hthird : third.value = 1 / 3 := (value_ofNonzero _).trans (by simp)
  have hthirds : ([third, third, third].map value).sum = one.value := by
    norm_num [hthird, value_one]
  have hrange : ∀ k, (BitVec.ofNat 128 (doubleWordSize - (k + 1))).toNat = doubleWordSize - (k + 1) :=
    fun k => Nat.mod_eq_of_lt (Nat.sub_lt (by decide) k.succ_pos)
  obtain ⟨share, hrun, hshare, hdiv⟩ := (shares_exact (.ofNat 128 (doubleWordSize - 1))).1 almostOne hone
  obtain ⟨-, hle, hge⟩ := (shares_exact (.ofNat 128 (doubleWordSize - 2))).2 [third, third, third] one
    (List.cons_ne_nil _ _) hthirds (le_iff.mpr le_rfl)
  rw [hrange 0] at hshare hdiv
  rw [hrange 1] at hle hge
  exact ⟨⟨hone, share, hrun, hshare, hdiv⟩, List.cons_ne_nil _ _, hthirds, le_iff.mpr le_rfl, hle, hge⟩

end ReferralForest.Fraction

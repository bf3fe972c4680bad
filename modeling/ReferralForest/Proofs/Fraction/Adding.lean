import ReferralForest.Proofs.Fraction.Rational

/-!
# Adding Fractions

A sum is reduced last: the two fractions are first brought over the product of their denominators, and
the numerator that they have there is a number of its own, which has to stay in the range of two words.
Where it does, a sum is given up just if it has no fraction. Where it does not, the sum is given up
unseen, though dividing by what the parts have in common might have brought it back into range. That
takes a sum above one, so shares of a whole are added exactly or not at all.

## Main statements

* `representable_iff` — the numbers that have a fraction, by their parts in lowest terms.
* `add?_eq_none_iff` — which sums are given up.
* `add?_exact` — what comes of adding two fractions.
* `add?_gives_up` — a sum that is given up though it has a fraction.
-/

namespace ReferralForest.Fraction

variable {a b c : Fraction}

/-- A fraction has a given value just if it has its parts in lowest terms. -/
theorem value_eq_iff {q : ℚ} : c.value = q ↔ (c.num : ℤ) = q.num ∧ c.den = q.den := by
  obtain ⟨hnum, hden⟩ := parts_value c
  rw [← hnum, ← hden]
  exact ⟨fun h => h ▸ ⟨rfl, rfl⟩, fun h => Rat.ext h.1 h.2⟩

/-- **The numbers that have a fraction** are those whose parts in lowest terms are in range. -/
theorem representable_iff {q : ℚ} (nonneg : 0 ≤ q) :
    Representable q ↔ q.num < (UInt64.size : ℤ) ∧ q.den < UInt64.size := by
  constructor
  · rintro ⟨c, hc⟩
    obtain ⟨hnum, hden⟩ := value_eq_iff.mp hc
    rw [← hnum, ← hden]
    exact ⟨Int.ofNat_lt.mpr c.num_lt, c.den_lt⟩
  · rintro ⟨hnum, hden⟩
    have hnonneg : 0 ≤ q.num := Rat.num_nonneg.mpr nonneg
    have hcast : (q.num.natAbs : ℤ) = q.num := Int.natAbs_of_nonneg hnonneg
    have hrange : q.num.natAbs < UInt64.size := by
      rw [← hcast] at hnum
      exact Int.ofNat_lt.mp hnum
    exact ⟨⟨q.num.natAbs, q.den, hrange, hden, q.den_pos, q.reduced⟩, value_eq_iff.mpr ⟨hcast, rfl⟩⟩

/-- **A sum is given up** if its numerator over both denominators is out of range, and else just if the
sum has no fraction. -/
theorem add?_eq_none_iff : a.add? b = none ↔
    UInt64.size * UInt64.size ≤ a.num * b.den + b.num * a.den ∨ ¬ Representable (a.value + b.value) := by
  rw [Option.eq_none_iff_forall_ne_some]
  simp only [ne_eq, add?_eq_some_iff, not_and, Representable, not_exists]
  constructor
  · intro h
    by_cases hcross : a.num * b.den + b.num * a.den < UInt64.size * UInt64.size
    · exact .inr fun c => h c hcross
    · exact .inl (Nat.le_of_not_lt hcross)
  · rintro (hcross | hnone) c hlt
    · exact absurd hlt (Nat.not_lt.mpr hcross)
    · exact hnone c

/-- The numerator over both denominators stays in range unless the sum is above one. -/
theorem cross_lt_of_le_one (atMost : a.value + b.value ≤ 1) :
    a.num * b.den + b.num * a.den < UInt64.size * UInt64.size := by
  have hpos : (0 : ℚ) < ((a.den * b.den : Nat) : ℚ) :=
    Nat.cast_pos.mpr (Nat.mul_pos a.den_pos b.den_pos)
  rw [value_add_value, div_le_one hpos, Nat.cast_le] at atMost
  exact atMost.trans_lt (Nat.mul_lt_mul'' a.den_lt b.den_lt)

/-- **What comes of adding two fractions.** Unless the numerator over both denominators leaves the range of
two words, the sum is the exact one in lowest terms, and it is given up just if one of its parts leaves
the range of a word. A sum up to one never fails for the other reason. -/
theorem add?_exact (a b : Fraction) :
    (∀ c, a.add? b = some c ↔ a.num * b.den + b.num * a.den < UInt64.size * UInt64.size ∧
      (c.num : ℤ) = (a.value + b.value).num ∧ c.den = (a.value + b.value).den) ∧
    (a.add? b = none ↔ UInt64.size * UInt64.size ≤ a.num * b.den + b.num * a.den ∨
      (UInt64.size : ℤ) ≤ (a.value + b.value).num ∨ UInt64.size ≤ (a.value + b.value).den) ∧
    (a.value + b.value ≤ 1 → a.num * b.den + b.num * a.den < UInt64.size * UInt64.size) := by
  refine ⟨fun c => ?_, ?_, cross_lt_of_le_one⟩
  · rw [add?_eq_some_iff, value_eq_iff]
  · rw [add?_eq_none_iff, representable_iff (add_nonneg a.value_nonneg b.value_nonneg), not_and_or,
      not_lt, not_lt]

/-- The greatest numerator over the greatest denominator to which it is prime. -/
def brimful : Fraction where
  num := 18446744073709551615
  den := 18446744073709551614
  num_lt := by decide
  den_lt := by decide
  den_pos := by decide
  coprime := by decide +kernel

/-- **A sum that is given up though it has a fraction**: the fraction just above one, added to itself. Over
both denominators the numerator is out of range, and reduced it is the greatest there is. -/
theorem add?_gives_up :
    brimful.add? brimful = none ∧
      (brimful.value + brimful.value).num < (UInt64.size : ℤ) ∧
      (brimful.value + brimful.value).den < UInt64.size := by
  have hdouble : Representable (brimful.value + brimful.value) := by
    refine ⟨⟨18446744073709551615, 9223372036854775807, by decide, by decide, by decide,
      by decide +kernel⟩, ?_⟩
    norm_num [value, brimful]
  exact ⟨by decide +kernel,
    (representable_iff (add_nonneg brimful.value_nonneg brimful.value_nonneg)).mp hdouble⟩

end ReferralForest.Fraction

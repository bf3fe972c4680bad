import Mathlib.Algebra.Order.Ring.Nat
import ReferralForest.Amount
import ReferralForest.Fraction

/-!
# Fractions in Words

The operations on fractions are stated in numbers of any size. A machine has words: the parts of a fraction
are words of 64 bits, and what is computed from them is held in double words of 128 bits. Here the operations
are carried out with those alone.

## Conventions

A product or a sum of double words is given up when it leaves their range; a quotient and a remainder never
do. So an operation that comes to something has had every value on the way in range. A double word is cut
down to a word by dropping its high half, whatever that holds. The divisor by which parts are reduced is found
by Euclid's algorithm, which goes on until nothing remains; of two zeros it is one, as nothing can be divided
by zero.

## Main definitions

* `DoubleWord.divisor` — Euclid's algorithm.
* `Fraction.Words` — a numerator and a denominator in a word each, with the operations on them.
* `Fraction.words` — the words of a fraction.

## Main statements

* `DoubleWord.toNat_divisor` — Euclid's algorithm finds the greatest common divisor.
* `Words.ofParts?_eq`, `Words.add?_eq`, `Words.compare?_eq` — operations in words come to the words of what the
  operations on fractions come to.
-/

namespace ReferralForest

/-! ### Double words -/

/-- Two words of 64 bits as one number. -/
abbrev DoubleWord := BitVec 128

namespace DoubleWord

variable {a b c d : DoubleWord}

/-- A word, widened. -/
def ofWord (w : UInt64) : DoubleWord := w.toBitVec.setWidth 128

/-- The low half. -/
def low (d : DoubleWord) : UInt64 := ⟨d.setWidth 64⟩

/-- The low half, if nothing is lost with the high one. -/
def low? (d : DoubleWord) : Option UInt64 := if d.toNat < UInt64.size then some (low d) else none

/-- A product in range. -/
def mul? (a b : DoubleWord) : Option DoubleWord := if a.umulOverflow b then none else some (a * b)

/-- A sum in range. -/
def add? (a b : DoubleWord) : Option DoubleWord := if a.uaddOverflow b then none else some (a + b)

/-- **Euclid's algorithm.** The divisor is replaced by the remainder until that is zero. -/
def divisor (a b : DoubleWord) : DoubleWord :=
  if b = 0 then if a = 0 then 1 else a else divisor b (a % b)
termination_by b.toNat
decreasing_by
  rw [BitVec.toNat_umod]
  exact Nat.mod_lt _ (Nat.pos_of_ne_zero fun h => ‹¬ b = 0› (BitVec.toNat_inj.mp h))

/-- Widening a word keeps its number. -/
@[simp] theorem toNat_ofWord (w : UInt64) : (ofWord w).toNat = w.toNat := by
  have hlt : w.toNat < 2 ^ 128 := w.toNat_lt.trans (by decide)
  rw [ofWord, BitVec.toNat_setWidth, UInt64.toNat_toBitVec, Nat.mod_eq_of_lt hlt]

/-- The low half is all there is of a small number. -/
theorem toNat_low (h : d.toNat < UInt64.size) : (low d).toNat = d.toNat := by
  rw [low, UInt64.toNat_ofBitVec, BitVec.toNat_setWidth]
  exact Nat.mod_eq_of_lt h

/-- **Cutting down** a small number loses nothing. -/
theorem ofWord_low (h : d.toNat < UInt64.size) : ofWord (low d) = d :=
  BitVec.eq_of_toNat_eq ((toNat_ofWord _).trans (toNat_low h))

/-- A double word for every number in range. -/
theorem exists_toNat_eq {n : Nat} (h : n < doubleWordSize) : ∃ d : DoubleWord, d.toNat = n :=
  ⟨.ofNat 128 n, Nat.mod_eq_of_lt h⟩

/-- Every double word is in range. -/
theorem toNat_lt (d : DoubleWord) : d.toNat < doubleWordSize := d.isLt

/-- **A product that is not given up** is exact. -/
theorem mul?_eq_some_iff : mul? a b = some c ↔ c.toNat = a.toNat * b.toNat := by
  rw [mul?]
  split
  next h =>
      have hge : doubleWordSize ≤ a.toNat * b.toNat := of_decide_eq_true h
      have hlt := toNat_lt c
      exact iff_of_false nofun (by omega)
  next h => rw [Option.some.injEq, ← BitVec.toNat_inj, BitVec.toNat_mul_of_not_umulOverflow h, eq_comm]

/-- **A sum that is not given up** is exact. -/
theorem add?_eq_some_iff : add? a b = some c ↔ c.toNat = a.toNat + b.toNat := by
  rw [add?]
  split
  next h =>
      have hge : doubleWordSize ≤ a.toNat + b.toNat := of_decide_eq_true h
      have hlt := toNat_lt c
      exact iff_of_false nofun (by omega)
  next h => rw [Option.some.injEq, ← BitVec.toNat_inj, BitVec.toNat_add_of_not_uaddOverflow h, eq_comm]

/-- A product of numbers whose product is in range. -/
theorem exists_mul? (h : a.toNat * b.toNat < doubleWordSize) :
    ∃ d, mul? a b = some d ∧ d.toNat = a.toNat * b.toNat := by
  obtain ⟨d, hd⟩ := exists_toNat_eq h
  exact ⟨d, mul?_eq_some_iff.mpr hd, hd⟩

/-- A sum of numbers whose sum is in range. -/
theorem exists_add? (h : a.toNat + b.toNat < doubleWordSize) :
    ∃ d, add? a b = some d ∧ d.toNat = a.toNat + b.toNat := by
  obtain ⟨d, hd⟩ := exists_toNat_eq h
  exact ⟨d, add?_eq_some_iff.mpr hd, hd⟩

/-- A sum out of range is given up. -/
theorem add?_eq_none (h : doubleWordSize ≤ a.toNat + b.toNat) : add? a b = none := by
  refine Option.eq_none_iff_forall_ne_some.mpr fun c hc => ?_
  have hlt := toNat_lt c
  rw [add?_eq_some_iff] at hc
  omega

/-- **The product of two words** is in range. -/
theorem exists_mul?_ofWord (u v : UInt64) :
    ∃ d, mul? (ofWord u) (ofWord v) = some d ∧ d.toNat = u.toNat * v.toNat := by
  have hrange : (ofWord u).toNat * (ofWord v).toNat < doubleWordSize := by
    rw [toNat_ofWord, toNat_ofWord]
    exact Nat.mul_lt_mul'' u.toNat_lt v.toNat_lt
  obtain ⟨d, hmul, hd⟩ := exists_mul? hrange
  exact ⟨d, hmul, by rw [hd, toNat_ofWord, toNat_ofWord]⟩

/-- **Euclid's algorithm finds the greatest common divisor**, and one of two zeros. -/
theorem toNat_divisor (a b : DoubleWord) :
    (divisor a b).toNat = if a = 0 ∧ b = 0 then 1 else a.toNat.gcd b.toNat := by
  fun_induction divisor a b with
  | case1 => rfl
  | case2 a ha => rw [if_neg fun h => ha h.1]; exact (Nat.gcd_zero_right _).symm
  | case3 a b hb ih =>
      rw [ih, if_neg fun h => hb h.1, if_neg fun h => hb h.2, BitVec.toNat_umod,
        Nat.gcd_comm, ← Nat.gcd_rec, Nat.gcd_comm]

/-- Where the second number is not zero, the divisor is the greatest common one. -/
theorem toNat_divisor_of_pos (h : 0 < b.toNat) : (divisor a b).toNat = a.toNat.gcd b.toNat := by
  rw [toNat_divisor, if_neg]
  rintro ⟨-, rfl⟩
  exact absurd h (Nat.lt_irrefl 0)

end DoubleWord

/-! ### Fractions -/

namespace Fraction

/-- A numerator and a denominator, in a word each. -/
structure Words where
  /-- The numerator. -/
  num : UInt64
  /-- The denominator. -/
  den : UInt64
  deriving DecidableEq

/-- The words of a fraction. -/
def words (f : Fraction) : Words := ⟨.ofNat f.num, .ofNat f.den⟩

variable {a b f : Fraction}

/-- The first word of a fraction is its numerator. -/
@[simp] theorem toNat_num_words (f : Fraction) : f.words.num.toNat = f.num :=
  UInt64.toNat_ofNat_of_lt' f.num_lt

/-- The second word of a fraction is its denominator. -/
@[simp] theorem toNat_den_words (f : Fraction) : f.words.den.toNat = f.den :=
  UInt64.toNat_ofNat_of_lt' f.den_lt

/-- Two words are those of a fraction just if they are its parts. -/
theorem eq_words_iff {w : Words} : w = f.words ↔ w.num.toNat = f.num ∧ w.den.toNat = f.den := by
  constructor
  · rintro rfl
    exact ⟨f.toNat_num_words, f.toNat_den_words⟩
  · rintro ⟨hnum, hden⟩
    obtain ⟨num, den⟩ := w
    rw [words, Words.mk.injEq, ← UInt64.toNat_inj, ← UInt64.toNat_inj]
    exact ⟨hnum.trans f.toNat_num_words.symm, hden.trans f.toNat_den_words.symm⟩

/-- A fraction is known from its words. -/
theorem words_inj : a.words = b.words ↔ a = b := by
  refine ⟨fun h => ?_, congrArg words⟩
  obtain ⟨hnum, hden⟩ := eq_words_iff.mp h
  rw [toNat_num_words] at hnum
  rw [toNat_den_words] at hden
  exact Fraction.ext hnum hden

namespace Words

open DoubleWord

/-! ### Operations in words -/

/-- Both parts over their divisor, cut down to words. -/
def reduce (num den : DoubleWord) : Words :=
  ⟨low (num / divisor num den), low (den / divisor num den)⟩

/-- Both parts over their divisor, if nothing is lost by cutting them down to words. -/
def reduce? (num den : DoubleWord) : Option Words :=
  match low? (num / divisor num den), low? (den / divisor num den) with
  | some num, some den => some ⟨num, den⟩
  | _, _ => none

/-- Two given parts, reduced, unless the second is zero. -/
def ofParts? (num den : UInt64) : Option Words :=
  if den = 0 then none else some (reduce (ofWord num) (ofWord den))

/-- `n` hundredths. -/
def percent (n : UInt64) : Words := reduce (ofWord n) (ofWord 100)

/-- `n` thousandths. -/
def permille (n : UInt64) : Words := reduce (ofWord n) (ofWord 1000)

/-- The numerators of two fractions over both denominators. -/
def cross? (a b : Words) : Option (DoubleWord × DoubleWord) := do
  return (← mul? (ofWord a.num) (ofWord b.den), ← mul? (ofWord b.num) (ofWord a.den))

/-- A sum. -/
def add? (a b : Words) : Option Words := do
  let (left, right) ← cross? a b
  let num ← DoubleWord.add? left right
  let den ← mul? (ofWord a.den) (ofWord b.den)
  reduce? num den

/-- A comparison. -/
def compare? (a b : Words) : Option Ordering := do
  let (left, right) ← cross? a b
  return compare left.toNat right.toNat

/-! ### Reducing -/

/-- What is left of the parts when they are reduced. -/
theorem toNat_div_divisor (num : DoubleWord) {den : DoubleWord} (pos : 0 < den.toNat) :
    (num / divisor num den).toNat = num.toNat / num.toNat.gcd den.toNat ∧
      (den / divisor num den).toNat = den.toNat / num.toNat.gcd den.toNat := by
  rw [BitVec.toNat_udiv, BitVec.toNat_udiv, toNat_divisor_of_pos pos]
  exact ⟨rfl, rfl⟩

/-- **Reducing** by Euclid's algorithm, where it is checked that nothing is lost. -/
theorem reduce?_eq (num : DoubleWord) {den : DoubleWord} (pos : 0 < den.toNat) :
    reduce? num den = (Fraction.reduce? num.toNat den.toNat).map words := by
  obtain ⟨hnum, hden⟩ := toNat_div_divisor num pos
  rw [reduce?, low?, low?, hnum, hden, Fraction.reduce?]
  by_cases hnumRange : num.toNat / num.toNat.gcd den.toNat < UInt64.size
  · by_cases hdenRange : den.toNat / num.toNat.gcd den.toNat < UInt64.size
    · rw [if_pos hnumRange, if_pos hdenRange, dif_pos ⟨pos, hnumRange, hdenRange⟩, Option.map_some,
        Option.some.injEq, eq_words_iff]
      rw [← hnum] at hnumRange
      rw [← hden] at hdenRange
      exact ⟨(toNat_low hnumRange).trans hnum, (toNat_low hdenRange).trans hden⟩
    · rw [if_pos hnumRange, if_neg hdenRange, dif_neg fun h => hdenRange h.2.2]
      rfl
  · rw [if_neg hnumRange, dif_neg fun h => hnumRange h.2.1]
    rfl

/-- Parts of one word each leave nothing in the high halves when they are reduced. -/
theorem div_divisor_lt (n d : UInt64) :
    (ofWord n / divisor (ofWord n) (ofWord d)).toNat < UInt64.size ∧
      (ofWord d / divisor (ofWord n) (ofWord d)).toNat < UInt64.size := by
  rw [BitVec.toNat_udiv, BitVec.toNat_udiv, toNat_ofWord, toNat_ofWord]
  exact ⟨(Nat.div_le_self _ _).trans_lt n.toNat_lt, (Nat.div_le_self _ _).trans_lt d.toNat_lt⟩

/-- **Reducing parts of one word each**, where nothing is checked. -/
theorem reduce_ofWord {n d : UInt64} (h : d ≠ 0) :
    reduce (ofWord n) (ofWord d) = (ofNonzero n d h).words := by
  have pos : 0 < (ofWord d).toNat := by
    rw [toNat_ofWord]
    exact Nat.pos_of_ne_zero fun e => h (UInt64.toNat_inj.mp e)
  obtain ⟨hnumRange, hdenRange⟩ := div_divisor_lt n d
  obtain ⟨hnum, hden⟩ := toNat_div_divisor (ofWord n) pos
  rw [toNat_ofWord, toNat_ofWord] at hnum hden
  exact eq_words_iff.mpr ⟨(toNat_low hnumRange).trans hnum, (toNat_low hdenRange).trans hden⟩

/-! ### Agreement -/

/-- **Given parts** make the same fraction in words. -/
theorem ofParts?_eq (n d : UInt64) : ofParts? n d = (Fraction.ofParts n d).toOption.map words := by
  rw [ofParts?, Fraction.ofParts]
  by_cases h : d = 0
  · rw [if_pos h, dif_pos h]
    rfl
  · rw [if_neg h, dif_neg h, reduce_ofWord h]
    rfl

/-- Hundredths are made in words as they are in numbers. -/
theorem percent_eq (n : UInt64) : percent n = (Fraction.percent n).words := reduce_ofWord _

/-- Thousandths are made in words as they are in numbers. -/
theorem permille_eq (n : UInt64) : permille n = (Fraction.permille n).words := reduce_ofWord _

/-- **Cross products** of fractions are in range. -/
theorem exists_cross? (a b : Fraction) : ∃ left right, cross? a.words b.words = some (left, right) ∧
    left.toNat = a.num * b.den ∧ right.toNat = b.num * a.den := by
  obtain ⟨left, hleft, hleftNat⟩ := exists_mul?_ofWord a.words.num b.words.den
  obtain ⟨right, hright, hrightNat⟩ := exists_mul?_ofWord b.words.num a.words.den
  rw [toNat_num_words, toNat_den_words] at hleftNat hrightNat
  refine ⟨left, right, ?_, hleftNat, hrightNat⟩
  rw [cross?, hleft, hright]
  rfl

/-- **Fractions are compared** in words as they are in numbers. -/
theorem compare?_eq (a b : Fraction) : compare? a.words b.words = some (compare a b) := by
  obtain ⟨left, right, hcross, hleft, hright⟩ := exists_cross? a b
  rw [compare?, hcross]
  change some (compare left.toNat right.toNat) = _
  rw [hleft, hright]
  rfl

/-- **Fractions are added** in words as they are in numbers. -/
theorem add?_eq (a b : Fraction) : add? a.words b.words = (a.add? b).map words := by
  obtain ⟨left, right, hcross, hleft, hright⟩ := exists_cross? a b
  obtain ⟨den, hden, hdenNat⟩ := exists_mul?_ofWord a.words.den b.words.den
  rw [toNat_den_words, toNat_den_words] at hdenNat
  have pos : 0 < den.toNat := hdenNat ▸ Nat.mul_pos a.den_pos b.den_pos
  rw [add?, hcross, Fraction.add?]
  change (DoubleWord.add? left right).bind _ = _
  rw [← hleft, ← hright]
  by_cases hrange : left.toNat + right.toNat < doubleWordSize
  · obtain ⟨num, hnum, hnumNat⟩ := exists_add? hrange
    rw [if_pos hrange, hnum, Option.bind_some, hden, ← hnumNat, ← hdenNat]
    exact reduce?_eq num pos
  · rw [if_neg hrange, DoubleWord.add?_eq_none (Nat.le_of_not_lt hrange)]
    rfl

end Words

end Fraction

end ReferralForest

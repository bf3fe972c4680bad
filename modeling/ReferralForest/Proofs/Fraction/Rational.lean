import Mathlib.Algebra.Order.Floor.Semifield
import Mathlib.Data.Rat.Floor
import Mathlib.Tactic
import ReferralForest.Fraction

/-!
# Fractions as Rational Numbers

A fraction stands for a rational number. Every sum of fractions is such a number too, but not every
number has a fraction: in lowest terms its parts may leave the range of a word. Of numbers below one
those are *representable* whose denominator does not, and adding fractions that stay below one is given
up just when the sum is not representable. Shares of a whole number are rounded down, so that together
they miss the share of the sum by less than one for each.

## Main definitions

* `Fraction.value` — the number a fraction stands for.
* `Fraction.Representable` — the numbers some fraction stands for.

## Main statements

* `value_injective` — no two fractions stand for one number.
* `add?_eq_some_iff` — a sum that is not given up is exact.
* `exists_foldlM_add?_iff` — a series of fractions is summed up just if its partial sums are
  representable.
* `mulFloor_eq_floor` — a share of a whole number is the exact share rounded down.
* `sum_floor_le`, `floor_sum_lt` — shares rounded down one by one, and their sum rounded down.
-/

namespace ReferralForest

namespace Fraction

variable {a b c f : Fraction} {num den : Nat}

/-- **The number a fraction stands for.** -/
def value (f : Fraction) : ℚ := f.num / f.den

/-- **The numbers some fraction stands for.** -/
def Representable (q : ℚ) : Prop := ∃ f : Fraction, f.value = q

/-- Every fraction stands for a number that some fraction stands for. -/
theorem representable_value (f : Fraction) : Representable f.value := ⟨f, rfl⟩

/-- A denominator is not zero as a rational number either. -/
theorem cast_den_ne_zero (f : Fraction) : (f.den : ℚ) ≠ 0 := Nat.cast_ne_zero.mpr f.den_pos.ne'

/-- Zero stands for zero. -/
@[simp] theorem value_zero : zero.value = 0 := by simp [value, zero]

/-- One stands for one. -/
@[simp] theorem value_one : one.value = 1 := by simp [value, one]

/-- No fraction is negative. -/
theorem value_nonneg (f : Fraction) : 0 ≤ f.value := by
  rw [value]
  positivity

/-- The parts of a quotient in lowest terms. -/
theorem parts_div (pos : 0 < den) (coprime : num.Coprime den) :
    ((num : ℚ) / den).num = num ∧ ((num : ℚ) / den).den = den := by
  have hpos : (0 : ℤ) < den := Int.natCast_pos.mpr pos
  have hnum := Rat.num_div_eq_of_coprime (a := num) hpos coprime
  have hden := Rat.den_div_eq_of_coprime (a := num) hpos coprime
  rw [Int.cast_natCast, Int.cast_natCast] at hnum hden
  exact ⟨hnum, Int.natCast_inj.mp hden⟩

/-- The parts of a fraction are those of its number in lowest terms. -/
theorem parts_value (f : Fraction) : f.value.num = f.num ∧ f.value.den = f.den :=
  parts_div f.den_pos f.coprime

/-- **No two fractions stand for one number.** -/
theorem value_injective : Function.Injective value := by
  intro a b h
  have hnum := (parts_value a).1
  have hden := (parts_value a).2
  rw [h, (parts_value b).1, Int.natCast_inj] at hnum
  rw [h, (parts_value b).2] at hden
  exact ext hnum.symm hden.symm

/-- A fraction is zero just if its number is. -/
theorem isZero_iff : f.isZero = true ↔ f.value = 0 := by
  rw [isZero, beq_iff_eq, value, div_eq_zero_iff, or_iff_left f.cast_den_ne_zero, Nat.cast_eq_zero]

/-- Fractions are ordered as their numbers are. -/
theorem lt_iff : a < b ↔ a.value < b.value := by
  have ha : (0 : ℚ) < a.den := Nat.cast_pos.mpr a.den_pos
  have hb : (0 : ℚ) < b.den := Nat.cast_pos.mpr b.den_pos
  rw [value, value, div_lt_div_iff₀ ha hb]
  exact_mod_cast Iff.rfl

/-- Fractions are ordered as their numbers are, equal ones included. -/
theorem le_iff : a ≤ b ↔ a.value ≤ b.value := by
  have ha : (0 : ℚ) < a.den := Nat.cast_pos.mpr a.den_pos
  have hb : (0 : ℚ) < b.den := Nat.cast_pos.mpr b.den_pos
  rw [value, value, div_le_div_iff₀ ha hb]
  exact_mod_cast Iff.rfl

/-! ### Reducing -/

/-- **Reducing** gives the fraction of a quotient, if there is one. The reduced parts are those of the
fraction, and so in range. -/
theorem reduce?_eq_some_iff (pos : 0 < den) :
    reduce? num den = some f ↔ f.value = (num : ℚ) / den := by
  have hgcd : num.gcd den ≠ 0 := (Nat.gcd_pos_of_pos_right num pos).ne'
  have hquotient : ((num / num.gcd den : Nat) : ℚ) / ((den / num.gcd den : Nat) : ℚ) = num / den := by
    rw [Nat.cast_div (Nat.gcd_dvd_left num den) (Nat.cast_ne_zero.mpr hgcd),
      Nat.cast_div (Nat.gcd_dvd_right num den) (Nat.cast_ne_zero.mpr hgcd),
      div_div_div_cancel_right₀ (Nat.cast_ne_zero.mpr hgcd)]
  rw [reduce?]
  split
  next h =>
      rw [Option.some.injEq, ← value_injective.eq_iff, eq_comm]
      exact Eq.congr_right hquotient
  next h =>
      refine iff_of_false (Option.some_ne_none f).symm fun hvalue => h ?_
      obtain ⟨hnum, hden⟩ := parts_div (Nat.div_gcd_pos_of_pos_right num pos)
        (Nat.coprime_div_gcd_div_gcd (Nat.gcd_pos_of_pos_right num pos))
      rw [hquotient, ← hvalue, (parts_value f).1, Int.natCast_inj] at hnum
      rw [hquotient, ← hvalue, (parts_value f).2] at hden
      exact ⟨pos, hnum ▸ f.num_lt, hden ▸ f.den_lt⟩

/-- **Given parts** make the fraction of their quotient. -/
theorem value_ofNonzero {num den : UInt64} (h : den ≠ 0) :
    (ofNonzero num den h).value = (num.toNat : ℚ) / den.toNat := by
  have pos : 0 < den.toNat := Nat.pos_of_ne_zero fun e => h (UInt64.toNat_inj.mp e)
  refine (reduce?_eq_some_iff pos).mp (dif_pos ⟨pos, ?_, ?_⟩)
  · exact (Nat.div_le_self _ _).trans_lt num.toNat_lt
  · exact (Nat.div_le_self _ _).trans_lt den.toNat_lt

/-! ### Sums -/

/-- The sum of two fractions over the product of their denominators. -/
theorem value_add_value (a b : Fraction) :
    a.value + b.value = ((a.num * b.den + b.num * a.den : Nat) : ℚ) / ((a.den * b.den : Nat) : ℚ) := by
  rw [value, value, div_add_div _ _ a.cast_den_ne_zero b.cast_den_ne_zero]
  push_cast
  ring

/-- **A sum that is not given up** is exact. It is given up if its fraction has parts out of range, or
if the cross sum is out of range before that. -/
theorem add?_eq_some_iff : a.add? b = some c ↔
    a.num * b.den + b.num * a.den < UInt64.size * UInt64.size ∧ c.value = a.value + b.value := by
  have hreduce : reduce? (a.num * b.den + b.num * a.den) (a.den * b.den) = some c ↔
      c.value = ((a.num * b.den + b.num * a.den : Nat) : ℚ) / ((a.den * b.den : Nat) : ℚ) :=
    reduce?_eq_some_iff (Nat.mul_pos a.den_pos b.den_pos)
  rw [add?, value_add_value, ← hreduce]
  split
  next hcross => exact (and_iff_right hcross).symm
  next hcross => exact iff_of_false nofun fun h => hcross h.1

/-- **A sum below one** is given up just if it has no fraction. -/
theorem add?_eq_some_iff_of_lt_one (below : a.value + b.value < 1) :
    a.add? b = some c ↔ c.value = a.value + b.value := by
  refine add?_eq_some_iff.trans (and_iff_right ?_)
  have hpos : (0 : ℚ) < ((a.den * b.den : Nat) : ℚ) :=
    Nat.cast_pos.mpr (Nat.mul_pos a.den_pos b.den_pos)
  rw [value_add_value, div_lt_one hpos, Nat.cast_lt] at below
  exact below.trans (Nat.mul_lt_mul'' a.den_lt b.den_lt)

/-- The numbers of some fractions add up to no negative number. -/
theorem sum_value_nonneg (l : List Fraction) : 0 ≤ (l.map value).sum := by
  refine List.sum_nonneg fun q hq => ?_
  obtain ⟨f, -, rfl⟩ := List.mem_map.mp hq
  exact f.value_nonneg

/-- A series that is summed up has that sum. -/
theorem value_of_foldlM_add? {l : List Fraction} (h : l.foldlM add? a = some b) :
    b.value = a.value + (l.map value).sum := by
  induction l generalizing a with
  | nil =>
      obtain rfl : a = b := Option.some.inj h
      simp
  | cons f rest ih =>
      obtain ⟨c, hc, hrest⟩ := Option.bind_eq_some_iff.mp (List.foldlM_cons.symm.trans h)
      rw [ih hrest, (add?_eq_some_iff.mp hc).2, List.map_cons, List.sum_cons, add_assoc]

/-- **A series below one is summed up** just if all its partial sums are representable. -/
theorem exists_foldlM_add?_iff {l : List Fraction} (below : a.value + (l.map value).sum < 1) :
    (∃ b, l.foldlM add? a = some b) ↔ ∀ k, Representable (a.value + ((l.take k).map value).sum) := by
  induction l generalizing a with
  | nil =>
      refine iff_of_true ⟨a, rfl⟩ fun k => ?_
      simpa using representable_value a
  | cons f rest ih =>
      rw [List.map_cons, List.sum_cons, ← add_assoc] at below
      have hfirst : a.value + f.value < 1 := by linarith [sum_value_nonneg rest]
      have hshift : ∀ k, ((f :: rest).take (k + 1)).map value = f.value :: (rest.take k).map value :=
        fun k => rfl
      rw [List.foldlM_cons]
      cases hc : a.add? f with
      | none =>
          refine iff_of_false nofun fun hall => ?_
          obtain ⟨c, hvalue⟩ := hall 1
          rw [hshift, List.sum_cons, List.take_zero, List.map_nil, List.sum_nil, add_zero] at hvalue
          rw [(add?_eq_some_iff_of_lt_one hfirst).mpr hvalue] at hc
          contradiction
      | some c =>
          have hvalue := (add?_eq_some_iff_of_lt_one hfirst).mp hc
          refine (ih (hvalue ▸ below)).trans ⟨fun hall k => ?_, fun hall k => ?_⟩
          · cases k with
            | zero => simpa using representable_value a
            | succ k =>
                rw [hshift, List.sum_cons, ← add_assoc, ← hvalue]
                exact hall k
          · have hnext := hall (k + 1)
            rwa [hshift, List.sum_cons, ← add_assoc, ← hvalue] at hnext

/-- Numbers below one with a denominator in range are representable. -/
theorem representable_of_lt_one {n : Nat} (below : (n : ℚ) / den < 1) (inRange : den < UInt64.size)
    (pos : 0 < den) : Representable ((n : ℚ) / den) := by
  have hn : n < den := by
    rwa [div_lt_one (Nat.cast_pos.mpr pos), Nat.cast_lt] at below
  have hfits : 0 < den ∧ n / n.gcd den < UInt64.size ∧ den / n.gcd den < UInt64.size :=
    ⟨pos, (Nat.div_le_self _ _).trans_lt (hn.trans inRange), (Nat.div_le_self _ _).trans_lt inRange⟩
  have hreduce : ∃ f, reduce? n den = some f := by
    rw [reduce?, dif_pos hfits]
    exact ⟨_, rfl⟩
  obtain ⟨f, hf⟩ := hreduce
  exact ⟨f, (reduce?_eq_some_iff pos).mp hf⟩

/-- Fractions whose denominators divide a number add up to a quotient by that number. -/
theorem exists_sum_value_eq {l : List Fraction} (pos : 0 < den) (divides : ∀ f ∈ l, f.den ∣ den) :
    ∃ n : Nat, (l.map value).sum = (n : ℚ) / den := by
  induction l with
  | nil => exact ⟨0, by simp⟩
  | cons f rest ih =>
      obtain ⟨n, hn⟩ := ih fun g hg => divides g (List.mem_cons_of_mem _ hg)
      obtain ⟨k, hk⟩ := divides f List.mem_cons_self
      have hne : (den : ℚ) ≠ 0 := Nat.cast_ne_zero.mpr pos.ne'
      refine ⟨f.num * k + n, ?_⟩
      have hf : f.value = ((f.num * k : Nat) : ℚ) / den := by
        rw [value, div_eq_div_iff f.cast_den_ne_zero hne, hk]
        push_cast
        ring
      rw [List.map_cons, List.sum_cons, hn, hf, ← add_div]
      push_cast
      rfl

/-- **Fractions with a common denominator** of one word have fractions as partial sums, as long as they
stay below one. -/
theorem representable_sum_take {l : List Fraction} (divides : ∀ f ∈ l, f.den ∣ den) (pos : 0 < den)
    (inRange : den < UInt64.size) (below : (l.map value).sum < 1) (k : Nat) :
    Representable ((l.take k).map value).sum := by
  obtain ⟨n, hn⟩ := exists_sum_value_eq pos fun f hf => divides f (List.mem_of_mem_take hf)
  have hrest := sum_value_nonneg (l.drop k)
  rw [← List.take_append_drop k l, List.map_append, List.sum_append] at below
  rw [hn]
  exact representable_of_lt_one (by linarith) inRange pos

/-! ### Shares -/

/-- A share of a whole number is its multiple divided once: what the quotient leaves is made good by the
remainder. -/
theorem mulFloor_eq_div (f : Fraction) (n : Nat) : f.mulFloor n = n * f.num / f.den := by
  rw [mulFloor]
  conv_rhs => rw [← Nat.div_add_mod n f.den]
  rw [Nat.add_mul, Nat.mul_assoc, Nat.mul_add_div f.den_pos]

/-- **A share of a whole number** is the exact share rounded down. -/
theorem mulFloor_eq_floor (f : Fraction) (n : Nat) : f.mulFloor n = ⌊f.value * n⌋₊ := by
  have hproduct : f.value * n = ((n * f.num : Nat) : ℚ) / f.den := by
    rw [value]
    push_cast
    ring
  rw [hproduct, Nat.floor_div_eq_div, mulFloor_eq_div]

end Fraction

/-- Numbers rounded down one by one do not exceed their sum rounded down. -/
theorem sum_floor_le {l : List ℚ} (nonneg : ∀ q ∈ l, 0 ≤ q) :
    (l.map fun q => ⌊q⌋₊).sum ≤ ⌊l.sum⌋₊ := by
  refine Nat.le_floor ?_
  rw [Nat.cast_list_sum, List.map_map]
  conv_rhs => rw [← List.map_id l]
  exact List.sum_le_sum fun q hq => Nat.floor_le (nonneg q hq)

/-- Numbers rounded down one by one miss their sum rounded down by less than their number. -/
theorem floor_sum_lt {l : List ℚ} (nonempty : l ≠ []) :
    ⌊l.sum⌋₊ < (l.map fun q => ⌊q⌋₊).sum + l.length := by
  have hterms : l.sum < (l.map fun q => ((⌊q⌋₊ + 1 : Nat) : ℚ)).sum := by
    conv_lhs => rw [← List.map_id l]
    refine List.sum_lt_sum_of_ne_nil nonempty _ _ fun q _ => ?_
    exact_mod_cast Nat.lt_floor_add_one q
  have hcount : (l.map fun q => ⌊q⌋₊ + 1).sum = (l.map fun q => ⌊q⌋₊).sum + l.length := by
    rw [List.sum_map_add]
    simp
  have hlength : l.length ≠ 0 := List.length_eq_zero_iff.not.mpr nonempty
  rw [Nat.floor_lt' (by omega), ← hcount, Nat.cast_list_sum, List.map_map]
  exact hterms

end ReferralForest

/-!
# Fractions

Non-negative rationals in lowest terms, with both parts in 64 bits. The invariant is carried by the type,
so a fraction is determined by its value and structural equality is equality of rationals.

Addition works on two words of 64 bits: it gives up when the cross sum leaves their range, and when
the reduced sum has a part that leaves the range of one.
-/

namespace ReferralForest

/-- A non-negative rational in lowest terms. -/
structure Fraction where
  /-- The numerator. -/
  num : Nat
  /-- The denominator. -/
  den : Nat
  num_lt : num < UInt64.size
  den_lt : den < UInt64.size
  den_pos : 0 < den
  coprime : Nat.Coprime num den
  deriving DecidableEq

namespace Fraction

/-- Fractions are equal if their parts are. -/
@[ext] theorem ext {a b : Fraction} (hn : a.num = b.num) (hd : a.den = b.den) : a = b := by
  cases a; cases b; simp_all

/-- Zero. -/
def zero : Fraction := ⟨0, 1, by decide, by decide, by decide, by decide⟩

/-- One. -/
def one : Fraction := ⟨1, 1, by decide, by decide, by decide, by decide⟩

/-- The fraction `num / den` in lowest terms, if its parts are in range then. -/
def reduce? (num den : Nat) : Option Fraction :=
  if h : 0 < den ∧ num / num.gcd den < UInt64.size ∧ den / num.gcd den < UInt64.size then
    some {
      num := num / num.gcd den
      den := den / num.gcd den
      num_lt := h.2.1
      den_lt := h.2.2
      den_pos := Nat.div_gcd_pos_of_pos_right num h.1
      coprime := Nat.coprime_div_gcd_div_gcd (Nat.gcd_pos_of_pos_right num h.1) }
  else none

/-- Why two numbers make no fraction. -/
inductive Fault where
  /-- The denominator is zero. -/
  | zeroDenominator (num : Nat)
  deriving DecidableEq

/-- The wording of a fault. -/
def Fault.message : Fault → String
  | .zeroDenominator num => s!"invalid fraction: {num}/0"

/-- The fraction with two given parts, the second of which is not zero. -/
def ofNonzero (num den : UInt64) (h : den ≠ 0) : Fraction :=
  have hpos : 0 < den.toNat :=
    Nat.pos_of_ne_zero fun e => h (UInt64.toNat_inj.1 (by simpa using e))
  { num := num.toNat / num.toNat.gcd den.toNat
    den := den.toNat / num.toNat.gcd den.toNat
    num_lt := Nat.lt_of_le_of_lt (Nat.div_le_self _ _) num.toNat_lt
    den_lt := Nat.lt_of_le_of_lt (Nat.div_le_self _ _) den.toNat_lt
    den_pos := Nat.div_gcd_pos_of_pos_right _ hpos
    coprime := Nat.coprime_div_gcd_div_gcd (Nat.gcd_pos_of_pos_right _ hpos) }

/-- The fraction with two given parts. -/
def ofParts (num den : UInt64) : Except Fault Fraction :=
  if h : den = 0 then .error (.zeroDenominator num.toNat) else .ok (ofNonzero num den h)

/-- Every fraction is read back from its two parts. -/
theorem ofParts_parts (f : Fraction) :
    ofParts (UInt64.ofNat f.num) (UInt64.ofNat f.den) = .ok f := by
  have hnum : (UInt64.ofNat f.num).toNat = f.num := UInt64.toNat_ofNat_of_lt' f.num_lt
  have hden : (UInt64.ofNat f.den).toNat = f.den := UInt64.toNat_ofNat_of_lt' f.den_lt
  have hne : UInt64.ofNat f.den ≠ 0 := fun h => by
    have := congrArg UInt64.toNat h
    rw [hden] at this
    exact absurd this (Nat.ne_of_gt f.den_pos)
  have hgcd : f.num.gcd f.den = 1 := f.coprime
  rw [ofParts, dif_neg hne]
  congr 1
  apply Fraction.ext <;> simp only [ofNonzero, hnum, hden, hgcd, Nat.div_one]

/-- `n` hundredths. -/
def percent (n : UInt64) : Fraction := ofNonzero n 100 (by decide)

/-- `n` thousandths. -/
def permille (n : UInt64) : Fraction := ofNonzero n 1000 (by decide)

/-- Whether the fraction is zero. -/
def isZero (f : Fraction) : Bool := f.num == 0

/-- The sum of two fractions, `none` when the cross sum is out of range for two words or the reduced
sum has a part that is out of range for one. -/
def add? (a b : Fraction) : Option Fraction :=
  let cross := a.num * b.den + b.num * a.den
  if cross < UInt64.size * UInt64.size then reduce? cross (a.den * b.den) else none

/-- The whole part of a share of `amount`, computed from quotient and remainder apart so that no
intermediate value exceeds the amount by a factor. -/
def mulFloor (f : Fraction) (amount : Nat) : Nat :=
  amount / f.den * f.num + amount % f.den * f.num / f.den

/-- Fractions are ordered by their cross products. -/
instance : Ord Fraction := ⟨fun a b => compare (a.num * b.den) (b.num * a.den)⟩

instance : LT Fraction := ⟨fun a b => a.num * b.den < b.num * a.den⟩
instance : LE Fraction := ⟨fun a b => a.num * b.den ≤ b.num * a.den⟩
instance (a b : Fraction) : Decidable (a < b) :=
  inferInstanceAs (Decidable (a.num * b.den < b.num * a.den))
instance (a b : Fraction) : Decidable (a ≤ b) :=
  inferInstanceAs (Decidable (a.num * b.den ≤ b.num * a.den))

/-- Numerator, stroke, denominator. -/
def text (f : Fraction) : String :=
  s!"{f.num}/{f.den}"

end Fraction

end ReferralForest

/-!
# Amounts

Quantities of a token in base units, all in the range of two words of 64 bits, and coins, which are
amounts of a named denomination. A sum or a difference that leaves that range is `none`; it is never
wrapped.
-/

namespace ReferralForest

/-- The least number that is out of range for two words of 64 bits. -/
abbrev doubleWordSize : Nat := UInt64.size * UInt64.size

/-- A quantity of base units. -/
structure Amount where
  /-- The number of base units. -/
  units : Nat
  units_lt : units < doubleWordSize
  deriving DecidableEq

namespace Amount

/-- Amounts are equal if they are the same number of units. -/
@[ext] theorem ext {a b : Amount} (h : a.units = b.units) : a = b := by
  cases a; cases b; simp_all

/-- Nothing. -/
def zero : Amount := ⟨0, by decide⟩

/-- The amount of that many units, if it is in range. -/
def ofNat? (units : Nat) : Option Amount :=
  if h : units < doubleWordSize then some ⟨units, h⟩ else none

/-- A number is made an amount just if it is the units of one. -/
theorem ofNat?_eq_some_iff {units : Nat} {a : Amount} : ofNat? units = some a ↔ units = a.units := by
  unfold ofNat?
  split
  · simp [Amount.ext_iff]
  next h => exact ⟨nofun, fun e => absurd (e ▸ a.units_lt) h⟩

/-- The sum of two amounts. -/
def add? (a b : Amount) : Option Amount :=
  ofNat? (a.units + b.units)

/-- What is left of an amount after `b` is taken away. -/
def sub? (a b : Amount) : Option Amount :=
  if b.units ≤ a.units then ofNat? (a.units - b.units) else none

/-- An amount moved up or down by a signed difference. -/
def shift? (a : Amount) (delta : Int) : Option Amount :=
  let moved := (a.units : Int) + delta
  if moved < 0 then none else ofNat? moved.toNat

/-- A shift succeeds exactly with the exact sum. -/
theorem shift?_eq_some_iff {a b : Amount} {delta : Int} :
    a.shift? delta = some b ↔ (b.units : Int) = a.units + delta := by
  simp only [shift?]
  split
  · simp; omega
  · rw [ofNat?_eq_some_iff]; omega

/-- How many base units make one display unit. -/
def unitsPerDisplayUnit : Nat := 1000000

/-- Whole display units, as far as a word of 64 bits can say. -/
def displayUnits (a : Amount) : Nat :=
  min (a.units / unitsPerDisplayUnit) (UInt64.size - 1)

end Amount

/-- The signed difference that leads from `old` to `new`; `none` if it is out of
range for two words, one bit of which is the sign. -/
def Amount.difference? (old new : Amount) : Option Int :=
  let delta := (new.units : Int) - old.units
  if 2 * delta.natAbs < doubleWordSize then some delta else none

/-- An amount of one denomination. -/
structure Coin where
  /-- The name of the denomination. -/
  denom : String
  /-- How much of it. -/
  amount : Amount
  deriving DecidableEq

/-- The amount directly followed by the denomination. -/
def Coin.text (coin : Coin) : String :=
  s!"{coin.amount.units}{coin.denom}"

end ReferralForest

/-!
# Timestamps

Points of time as whole seconds since the epoch, in 64 bits. They come from block headers and are
compared and advanced, never read from a clock.
-/

namespace ReferralForest

/-- Seconds since the epoch. -/
structure Timestamp where
  /-- The number of seconds. -/
  seconds : UInt64
  deriving DecidableEq

namespace Timestamp

/-- The point of time `period` seconds later, `none` past the last representable second. -/
def add? (t : Timestamp) (period : UInt64) : Option Timestamp :=
  if t.seconds.toNat + period.toNat < UInt64.size then some ⟨t.seconds + period⟩ else none

/-- Advancing is exact. -/
theorem add?_eq_some_iff {t later : Timestamp} {period : UInt64} :
    t.add? period = some later ↔ later.seconds.toNat = t.seconds.toNat + period.toNat := by
  unfold add?
  split
  next h =>
    simp only [Option.some.injEq]
    constructor
    · rintro rfl
      rw [UInt64.toNat_add, Nat.mod_eq_of_lt h]
    · intro e
      obtain ⟨s⟩ := later
      congr 1
      apply UInt64.toNat_inj.1
      rw [UInt64.toNat_add, Nat.mod_eq_of_lt h]
      exact e.symm
  next h => exact ⟨nofun, fun e => absurd (e ▸ later.seconds.toNat_lt) h⟩

instance : LT Timestamp := ⟨fun a b => a.seconds < b.seconds⟩
instance : LE Timestamp := ⟨fun a b => a.seconds ≤ b.seconds⟩
instance (a b : Timestamp) : Decidable (a < b) := inferInstanceAs (Decidable (a.seconds < b.seconds))
instance (a b : Timestamp) : Decidable (a ≤ b) := inferInstanceAs (Decidable (a.seconds ≤ b.seconds))

/-- The seconds followed by their unit. -/
def text (t : Timestamp) : String :=
  s!"{t.seconds.toNat}s"

end Timestamp

end ReferralForest

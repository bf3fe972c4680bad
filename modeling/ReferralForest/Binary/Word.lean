/-!
# Words as Bytes

Numbers as byte strings of a fixed width, least significant byte first, and back.
-/

namespace ReferralForest.Binary

/-- How many numbers `width` bytes can tell apart. -/
def capacity : Nat → Nat
  | 0 => 1
  | width + 1 => 256 * capacity width

/-- The `width` low bytes of a number, least significant first. -/
def little : Nat → Nat → List UInt8
  | 0, _ => []
  | width + 1, n => UInt8.ofNat n :: little width (n / 256)

/-- The number whose bytes these are, least significant first. -/
def value : List UInt8 → Nat
  | [] => 0
  | byte :: rest => byte.toNat + 256 * value rest

/-- A number takes as many bytes as its word is wide. -/
@[simp] theorem length_little (width n : Nat) : (little width n).length = width := by
  induction width generalizing n with
  | zero => rfl
  | succ width ih => simp [little, ih]

/-- Writing keeps a number modulo its width. -/
theorem value_little (width n : Nat) : value (little width n) = n % capacity width := by
  induction width generalizing n with
  | zero => simp [little, value, capacity, Nat.mod_one]
  | succ width ih => rw [little, value, ih, capacity, Nat.mod_mul, UInt8.toNat_ofNat']

/-- A number that fits its width is read back. -/
theorem value_little_of_lt {width n : Nat} (h : n < capacity width) : value (little width n) = n := by
  rw [value_little, Nat.mod_eq_of_lt h]

/-- Bytes make no number beyond what so many bytes can hold. -/
theorem value_lt (bytes : List UInt8) : value bytes < capacity bytes.length := by
  induction bytes with
  | nil => simp [value, capacity]
  | cons byte rest ih =>
    have := byte.toNat_lt
    rw [value, List.length_cons, capacity]
    omega

/-- A byte string is written back from its number. -/
theorem little_value (bytes : List UInt8) : little bytes.length (value bytes) = bytes := by
  induction bytes with
  | nil => rfl
  | cons byte rest ih =>
    have := byte.toNat_lt
    rw [List.length_cons, little, value]
    congr
    · apply UInt8.toNat_inj.1
      rw [UInt8.toNat_ofNat']
      omega
    · rw [show (byte.toNat + 256 * value rest) / 256 = value rest by omega, ih]

end ReferralForest.Binary

/-!
# Reading Integers

Decimal integers as arguments and status names give them: at least one ASCII digit, leading zeros
allowed, an optional sign in front, and nothing else. A leading `+` is a sign everywhere; a leading
`-` is one only where negative values are asked for.
-/

namespace ReferralForest.Decimal

/-- The value of a decimal digit. -/
def digit? (c : Char) : Option Nat :=
  if '0' ≤ c ∧ c ≤ '9' then some (c.toNat - '0'.toNat) else none

/-- Reads on from a value already read. -/
def accumulate : Nat → List Char → Option Nat
  | value, [] => some value
  | value, c :: rest => (digit? c).bind fun d => accumulate (10 * value + d) rest

/-- The value of a nonempty run of digits. -/
def digits? : List Char → Option Nat
  | [] => none
  | cs => accumulate 0 cs

/-- An unsigned integer, with an optional `+`. -/
def natural? (text : String) : Option Nat :=
  match text.toList with
  | '+' :: rest => digits? rest
  | cs => digits? cs

/-- An integer, with an optional `+` or `-`. -/
def integer? (text : String) : Option Int :=
  match text.toList with
  | '-' :: rest => (digits? rest).map fun n => -(n : Int)
  | '+' :: rest => (digits? rest).map Int.ofNat
  | cs => (digits? cs).map Int.ofNat

/-- An unsigned integer below `bound`. -/
def naturalBelow? (bound : Nat) (text : String) : Option Nat :=
  (natural? text).filter (· < bound)

end ReferralForest.Decimal

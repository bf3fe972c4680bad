/-!
# Hexadecimal Text

Bytes written in base sixteen: as a list of numbers for error texts (`[1, 5, 61]`), and single
numbers for escapes; and, the other way round, the values of digits and pairs of digits.
-/

namespace ReferralForest.Hex

/-- A number in lower-case hexadecimal, without padding. -/
def number (n : Nat) : String :=
  String.ofList (Nat.toDigits 16 n)

/-- A number in lower-case hexadecimal, padded with zeros to `width` digits. -/
def padded (width n : Nat) : String :=
  let digits := Nat.toDigits 16 n
  String.ofList (List.replicate (width - digits.length) '0' ++ digits)

/-- A byte string as a bracketed list of unpadded hexadecimal numbers. -/
def list (bytes : List UInt8) : String :=
  "[" ++ String.intercalate ", " (bytes.map fun b => number b.toNat) ++ "]"

/-- The value of a hexadecimal digit, in either case. -/
def digit? (c : Char) : Option Nat :=
  if '0' ≤ c ∧ c ≤ '9' then some (c.toNat - '0'.toNat)
  else if 'a' ≤ c ∧ c ≤ 'f' then some (c.toNat - 'a'.toNat + 10)
  else if 'A' ≤ c ∧ c ≤ 'F' then some (c.toNat - 'A'.toNat + 10)
  else none

/-- A byte string as pairs of digits. -/
def bytes (bs : List UInt8) : String :=
  String.join (bs.map fun b => padded 2 b.toNat)

/-- The byte string that pairs of digits stand for. -/
def pairs? : List Char → Option (List UInt8)
  | [] => some []
  | a :: b :: rest => do
    return UInt8.ofNat (16 * (← digit? a) + (← digit? b)) :: (← pairs? rest)
  | [_] => none

/-- The byte string that a text of pairs of digits stands for. -/
def bytes? (text : String) : Option (List UInt8) := pairs? text.toList

end ReferralForest.Hex

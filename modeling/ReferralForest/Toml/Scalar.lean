import ReferralForest.Text.Decimal
import ReferralForest.Text.Hex
import ReferralForest.Toml.Basic

/-!
# TOML Scalars without Quotes

Whole numbers, other numbers, truth values, dates and times. Digits may be grouped by single
underscores. Whole numbers have 64 bits and may be written to base 2, 8, 10 or 16; other numbers must
be below the greatest number of their binary format; dates and times must exist, except that a minute
may have a leap second.
-/

namespace ReferralForest.Toml

/-! ### Numbers -/

/-- Digits without the underscores between them. -/
def ungrouped? (isDigit : Char → Bool) : List Char → Option (List Char)
  | [] => none
  | [c] => if isDigit c then some [c] else none
  | c :: '_' :: rest => if isDigit c then (ungrouped? isDigit rest).map (c :: ·) else none
  | c :: rest => if isDigit c then (ungrouped? isDigit rest).map (c :: ·) else none

/-- The value of digits to a base, most significant first. -/
def positional (base : Nat) (digits : List Char) : Nat :=
  digits.foldl (fun n c => base * n + (Hex.digit? c).getD 0) 0

/-- Whether a character is a digit to a base. -/
def isDigitTo (base : Nat) (c : Char) : Bool :=
  ((Hex.digit? c).map fun d => decide (d < base)).getD false

/-- The value of a number to a base. -/
def natural? (base : Nat) (word : List Char) : Option Nat :=
  (ungrouped? (isDigitTo base) word).map (positional base)

/-- The digits of a number to base ten, without superfluous zeros in front. -/
def decimals? (word : List Char) : Option (List Char) :=
  (ungrouped? Char.isDigit word).filter fun digits => digits.length = 1 || digits.head? ≠ some '0'

/-- A sign, and what it stands before. -/
def signed : List Char → Bool × List Char
  | '-' :: rest => (true, rest)
  | '+' :: rest => (false, rest)
  | word => (false, word)

/-- The value of a whole number. -/
def integer? (word : List Char) : Option Int :=
  let value : Option Int := match word with
    | '0' :: 'x' :: rest => (natural? 16 rest).map Int.ofNat
    | '0' :: 'o' :: rest => (natural? 8 rest).map Int.ofNat
    | '0' :: 'b' :: rest => (natural? 2 rest).map Int.ofNat
    | word =>
      let (negative, rest) := signed word
      (decimals? rest).map fun digits =>
        if negative then -(positional 10 digits : Int) else positional 10 digits
  value.filter fun n => Int64.minValue.toInt ≤ n ∧ n ≤ Int64.maxValue.toInt

/-- The least number that is rounded beyond the greatest finite number of the binary format with 64
bits. -/
def floatLimit : Nat := Nat.pow 2 1024 - Nat.pow 2 970

/-- Whether a number, given by its digits and a power of ten, is too large. -/
def isTooLarge (digits : List Char) (exponent : Int) : Bool :=
  let significant := digits.dropWhile (· = '0')
  let magnitude := (significant.length : Int) + exponent
  if significant.isEmpty || magnitude < 300 then false
  else if 400 < magnitude then true
  else
    let n := positional 10 significant
    if 0 ≤ exponent then floatLimit ≤ n * Nat.pow 10 exponent.toNat
    else floatLimit * Nat.pow 10 (-exponent).toNat ≤ n

/-- The exponent of a number: zero if there is none. -/
def exponent? : List Char → Option Int
  | [] => some 0
  | letter :: rest =>
    if letter = 'e' ∨ letter = 'E' then
      let (negative, rest) := signed rest
      (ungrouped? Char.isDigit rest).map fun digits =>
        if negative then -(positional 10 digits : Int) else positional 10 digits
    else none

/-- Characters of grouped digits. -/
def isGrouped (c : Char) : Bool := c.isDigit || c = '_'

/-- Whether a word is a number with a fraction or an exponent, or one that is no number. -/
def isFloat (word : List Char) : Bool :=
  let (negative, body) := signed word
  if body = "inf".toList || body = "nan".toList then true
  else
    let after := body.dropWhile isGrouped
    let parts : Option (List Char × List Char × Int) := do
      let whole ← decimals? (body.takeWhile isGrouped)
      match after with
      | [] => none
      | '.' :: rest =>
        let fraction ← ungrouped? Char.isDigit (rest.takeWhile isGrouped)
        return (whole, fraction, ← exponent? (rest.dropWhile isGrouped))
      | rest => return (whole, [], ← exponent? rest)
    match parts with
    | some (whole, fraction, exponent) =>
      negative || !isTooLarge (whole ++ fraction) (exponent - fraction.length)
    | none => false

/-! ### Dates and times -/

/-- A number of two digits in a range, and the rest. -/
def twoDigits? (low high : Nat) : List Char → Option (Nat × List Char)
  | a :: b :: rest => do
    let n := 10 * (← Decimal.digit? a) + (← Decimal.digit? b)
    if low ≤ n ∧ n ≤ high then some (n, rest) else none
  | _ => none

/-- A rest that goes on after a given character. -/
def after? (c : Char) : List Char → Option (List Char)
  | d :: rest => if c = d then some rest else none
  | [] => none

/-- The number of days of a month. -/
def daysIn (year month : Nat) : Nat :=
  if month = 2 then
    if year % 4 = 0 ∧ (year % 100 ≠ 0 ∨ year % 400 = 0) then 29 else 28
  else if month ∈ [4, 6, 9, 11] then 30
  else 31

/-- Reads a date, and gives the rest. -/
def date? (word : List Char) : Option (List Char) := do
  let (century, rest) ← twoDigits? 0 99 word
  let (year, rest) ← twoDigits? 0 99 rest
  let (month, rest) ← twoDigits? 1 12 (← after? '-' rest)
  let (_, rest) ← twoDigits? 1 (daysIn (100 * century + year) month) (← after? '-' rest)
  return rest

/-- Reads a time of day, and gives the rest. -/
def time? (word : List Char) : Option (List Char) := do
  let (_, rest) ← twoDigits? 0 23 word
  let (_, rest) ← twoDigits? 0 59 (← after? ':' rest)
  let (_, rest) ← twoDigits? 0 60 (← after? ':' rest)
  match rest with
  | '.' :: fraction =>
    let rest := fraction.dropWhile Char.isDigit
    if rest.length < fraction.length then some rest else none
  | rest => some rest

/-- Whether a word is an offset from universal time. -/
def isOffset (word : List Char) : Bool :=
  match word with
  | ['Z'] | ['z'] => true
  | '+' :: rest | '-' :: rest =>
    let hours := (twoDigits? 0 23 rest).bind fun p => after? ':' p.2
    (hours.bind (twoDigits? 0 59)).any (·.2.isEmpty)
  | _ => false

/-- Whether a word is a date, a time of day, or both with or without an offset. -/
def isMoment (word : List Char) : Bool :=
  match date? word with
  | none => time? word = some []
  | some [] => true
  | some (delimiter :: rest) =>
    delimiter ∈ ['T', 't', ' '] &&
      (time? rest).any fun offset => offset.isEmpty || isOffset offset

/-! ### Words -/

/-- Characters of words. -/
def isWordChar (c : Char) : Bool := c.isAlphanum || c ∈ ['_', '+', '-', '.', ':']

/-- Cuts the word off the front of a text. A blank belongs to it between a date and a digit. -/
def cutWord (cs : List Char) : List Char × List Char :=
  let word := cs.takeWhile isWordChar
  match date? word, cs.dropWhile isWordChar with
  | some [], ' ' :: c :: rest =>
    if c.isDigit then
      (word ++ ' ' :: (c :: rest).takeWhile isWordChar, (c :: rest).dropWhile isWordChar)
    else (word, ' ' :: c :: rest)
  | _, rest => (word, rest)

/-- The value of a word. -/
def ofWord? (word : List Char) : Option Toml :=
  match integer? word with
  | some n => some (.integer n)
  | none =>
    if word = "true".toList || word = "false".toList || isFloat word || isMoment word then some .other
    else none

end ReferralForest.Toml

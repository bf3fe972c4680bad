import ReferralForest.SortedMap

/-!
# Keys and Key Ranges

Stores hold byte strings under byte strings, ordered bytewise with a proper beginning first. Ranges
of keys are half open; the keys that begin with given bytes are such a range, whose end is the
`ceiling?` of those bytes.
-/

namespace ReferralForest

/-- A store key. -/
abbrev Key := List UInt8

/-- A stored value. -/
abbrev Value := List UInt8

/-- The least key above all keys that begin with the given bytes; `none` when nothing lies above
them, that is for no bytes at all and for bytes that are all `0xFF`. -/
def Key.ceiling? : Key → Option Key
  | [] => none
  | byte :: rest =>
    match ceiling? rest with
    | some above => some (byte :: above)
    | none => if byte < 0xFF then some [byte + 1] else none

/-- The keys from `start` on, up to but without `stop` if there is one. -/
structure KeyRange where
  /-- The first key of the range. -/
  start : Key
  /-- The first key after the range. -/
  stop : Option Key

namespace KeyRange

/-- Whether a key lies in the range. -/
def contains (range : KeyRange) (key : Key) : Bool :=
  (compare range.start key).isLE &&
    match range.stop with
    | some stop => (compare key stop).isLT
    | none => true

/-- Whether the end of the range is not above its start. -/
def isEmpty (range : KeyRange) : Bool :=
  match range.stop with
  | some stop => (compare stop range.start).isLE
  | none => false

/-- The keys that begin with the given bytes. -/
def beginningWith (bytes : Key) : KeyRange :=
  ⟨bytes, Key.ceiling? bytes⟩

end KeyRange

end ReferralForest

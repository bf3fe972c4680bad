/-!
# UTF-8 Faults

Where a byte string stops being UTF-8. Whether it is UTF-8 at all is the standard library's
`ByteArray.IsValidUTF8`; this module only finds the first place at which it is not, for the
wording of an error.

A sequence is judged one byte at a time. Its first byte fixes the range in which each of the
following bytes must lie (`following?`); the first byte outside its range ends the maximal bad
sequence, and input that ends inside a sequence leaves it incomplete.
-/

namespace ReferralForest

/-- The bytes of a text in UTF-8. -/
def utf8Bytes (text : String) : List UInt8 :=
  text.toUTF8.data.toList

namespace Utf8

/-- The first place at which a byte string is not UTF-8. -/
inductive Fault where
  /-- The `length` bytes from `index` begin no character. -/
  | invalid (length index : Nat)
  /-- The input ends inside the sequence that begins at `index`. -/
  | incomplete (index : Nat)
  deriving DecidableEq

/-- The wording of a fault. -/
def Fault.message : Fault → String
  | .invalid length index => s!"invalid utf-8 sequence of {length} bytes from index {index}"
  | .incomplete index => s!"incomplete utf-8 byte sequence from index {index}"

/-- A closed range of byte values. -/
structure ByteRange where
  /-- The least value. -/
  low : UInt8
  /-- The greatest value. -/
  high : UInt8

/-- Whether a byte lies in a range. -/
def ByteRange.contains (range : ByteRange) (byte : UInt8) : Bool :=
  range.low ≤ byte && byte ≤ range.high

/-- The range of an unrestricted continuation byte. -/
def continuation : ByteRange := ⟨0x80, 0xBF⟩

/-- The ranges of the bytes that must follow a first byte, `none` when no character begins with
it. The narrowed ranges shut out overlong forms, surrogates and values above `0x10FFFF`. -/
def following? (first : UInt8) : Option (List ByteRange) :=
  if first < 0x80 then some []
  else if first < 0xC2 then none
  else if first < 0xE0 then some [continuation]
  else if first = 0xE0 then some [⟨0xA0, 0xBF⟩, continuation]
  else if first = 0xED then some [⟨0x80, 0x9F⟩, continuation]
  else if first < 0xF0 then some [continuation, continuation]
  else if first = 0xF0 then some [⟨0x90, 0xBF⟩, continuation, continuation]
  else if first < 0xF4 then some [continuation, continuation, continuation]
  else if first = 0xF4 then some [⟨0x80, 0x8F⟩, continuation, continuation]
  else none

/-- Scans on from inside a sequence that began at `start`, of which `taken` bytes are read and
the bytes in the ranges `due` are still to come. -/
def scan (start taken : Nat) : List ByteRange → List UInt8 → Option Fault
  | [], [] => none
  | _ :: _, [] => some (.incomplete start)
  | [], byte :: rest =>
    match following? byte with
    | none => some (.invalid 1 (start + taken))
    | some due => scan (start + taken) 1 due rest
  | range :: due, byte :: rest =>
    if range.contains byte then scan start (taken + 1) due rest
    else some (.invalid taken start)

/-- The first fault of a byte string, `none` when it is UTF-8. -/
def fault? (bytes : List UInt8) : Option Fault :=
  scan 0 0 [] bytes

/-- A text read from its UTF-8 bytes. The fault reported for bytes that are not UTF-8 is the first
one; a fault is always found then, so the fallback is never used. -/
def decode (bytes : List UInt8) : Except Fault String :=
  match String.fromUTF8? ⟨bytes.toArray⟩ with
  | some text => .ok text
  | none => .error ((fault? bytes).getD (.incomplete bytes.length))

/-- A text is read back from its bytes. -/
@[simp] theorem decode_utf8Bytes (text : String) : decode (utf8Bytes text) = .ok text := by
  have h : String.fromUTF8? ⟨(utf8Bytes text).toArray⟩ = some text := by
    simp [utf8Bytes, String.fromUTF8?, text.isValidUTF8, String.fromUTF8]
  simp [decode, h]

/-- Only the bytes of a text are read as that text. -/
theorem utf8Bytes_of_decode {bytes : List UInt8} {text : String} (h : decode bytes = .ok text) :
    utf8Bytes text = bytes := by
  unfold decode at h
  split at h
  next found hfound =>
    obtain rfl : found = text := by simpa using h
    simp only [String.fromUTF8?] at hfound
    split at hfound
    · obtain rfl := Option.some.inj hfound
      simp [utf8Bytes, String.fromUTF8]
    · contradiction
  · contradiction

/-- The bytes determine the text. -/
theorem utf8Bytes_injective {s t : String} (h : utf8Bytes s = utf8Bytes t) : s = t := by
  have := decode_utf8Bytes s
  rw [h, decode_utf8Bytes] at this
  exact (Except.ok.inj this).symm

/-- A text has as many bytes as its UTF-8 size says. -/
theorem length_utf8Bytes (text : String) : (utf8Bytes text).length = text.utf8ByteSize := by
  rw [utf8Bytes, Array.length_toList, ← String.size_toByteArray]
  rfl

end Utf8

end ReferralForest

import ReferralForest.Text.Utf8

/-!
# Account Identifiers

The names of accounts: texts of 1 to 255 bytes in UTF-8, so that one byte can hold the length of a
name inside a longer key. Accounts are compared and ordered by their bytes.
-/

namespace ReferralForest

/-- The name of an account. -/
structure AccountId where
  /-- The name. -/
  text : String
  size_pos : 0 < text.utf8ByteSize
  size_le : text.utf8ByteSize ≤ 255
  deriving DecidableEq

namespace AccountId

/-- Identifiers are equal if their texts are. -/
@[ext] theorem ext {a b : AccountId} (h : a.text = b.text) : a = b := by
  cases a; cases b; simp_all

/-- The name in UTF-8. -/
def bytes (a : AccountId) : List UInt8 := utf8Bytes a.text

/-- An identifier has as many bytes as the encoding of its text. -/
theorem length_bytes (a : AccountId) : a.bytes.length = a.text.utf8ByteSize :=
  Utf8.length_utf8Bytes a.text

/-- No identifier is without bytes. -/
theorem length_bytes_pos (a : AccountId) : 0 < a.bytes.length :=
  a.length_bytes ▸ a.size_pos

/-- The length of an identifier fits one byte. -/
theorem length_bytes_le (a : AccountId) : a.bytes.length ≤ 255 :=
  a.length_bytes ▸ a.size_le

/-- No identifier is the empty byte string. -/
theorem bytes_ne_nil (a : AccountId) : a.bytes ≠ [] :=
  List.ne_nil_of_length_pos a.length_bytes_pos

/-- The bytes determine the account. -/
theorem bytes_injective {a b : AccountId} (h : a.bytes = b.bytes) : a = b :=
  ext (Utf8.utf8Bytes_injective h)

/-- Why a text or a byte string names no account. -/
inductive Fault where
  /-- The text is empty. -/
  | empty
  /-- The text takes `size` bytes. -/
  | tooLong (size : Nat)
  /-- The bytes are no text. -/
  | notText (fault : Utf8.Fault)
  deriving DecidableEq

/-- The wording of a fault. -/
def Fault.message : Fault → String
  | .empty => "invalid account id: empty account id"
  | .tooLong size => s!"invalid account id: account id is {size} bytes long, at most 255 allowed"
  | .notText fault => s!"invalid account id: not utf-8: {fault.message}"

/-- The account with a given name. -/
def parse (text : String) : Except Fault AccountId :=
  if h₀ : 0 < text.utf8ByteSize then
    if h₁ : text.utf8ByteSize ≤ 255 then .ok ⟨text, h₀, h₁⟩
    else .error (.tooLong text.utf8ByteSize)
  else .error .empty

/-- The account whose name has the given bytes. -/
def ofBytes (bytes : List UInt8) : Except Fault AccountId :=
  match Utf8.decode bytes with
  | .ok text => parse text
  | .error fault => .error (.notText fault)

/-- Every account is read back from its name. -/
@[simp] theorem parse_text (a : AccountId) : parse a.text = .ok a := by
  simp [parse, a.size_pos, a.size_le]

/-- Only its name is read as an account. -/
theorem text_of_parse {text : String} {a : AccountId} (h : parse text = .ok a) : a.text = text := by
  unfold parse at h
  split at h
  · split at h
    · exact (congrArg AccountId.text (Except.ok.inj h)).symm
    · contradiction
  · contradiction

/-- Every account is read back from its bytes. -/
@[simp] theorem ofBytes_bytes (a : AccountId) : ofBytes a.bytes = .ok a := by
  simp [ofBytes, bytes]

/-- Only its bytes are read as an account. -/
theorem bytes_of_ofBytes {bytes : List UInt8} {a : AccountId} (h : ofBytes bytes = .ok a) :
    a.bytes = bytes := by
  unfold ofBytes at h
  split at h
  next text htext =>
    rw [AccountId.bytes, text_of_parse h]
    exact Utf8.utf8Bytes_of_decode htext
  · contradiction

/-! ### Order -/

/-- Accounts are ordered bytewise, a proper beginning first. -/
instance : Ord AccountId := ⟨fun a b => compare a.bytes b.bytes⟩

/-- Identifiers are ordered as their bytes are. -/
theorem compare_def (a b : AccountId) : compare a b = compare a.bytes b.bytes := rfl

instance : Std.TransOrd AccountId :=
  inferInstanceAs (Std.TransCmp (compareOn AccountId.bytes))

instance : Std.LawfulEqOrd AccountId where
  eq_of_compare h := bytes_injective (Std.LawfulEqOrd.eq_of_compare h)

end AccountId

end ReferralForest

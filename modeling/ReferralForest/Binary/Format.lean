import ReferralForest.AccountId
import ReferralForest.Binary.Word
import ReferralForest.Fraction

/-!
# Binary Formats

How values lie in byte strings. A `Format` writes a value and reads one from the front of a byte
string, and carries the law that what was written is read back in front of any further bytes. A
format is *exact* if also only what would be written is read. Formats of larger values are built
from formats of their parts, and exactness passes from the parts to the whole.

## Conventions

Words are little-endian and of fixed width. A flag and the presence of an optional value take one
byte, which is 0 or 1. A choice among named cases is a word of four bytes. Lists and texts are
preceded by their length in eight bytes; a list is storable only if that length fits.
-/

namespace ReferralForest.Binary

/-- Why bytes are no written value. -/
inductive Fault where
  /-- A word is cut off. -/
  | endOfInput
  /-- A text is announced longer than the input. -/
  | textTooLong
  /-- The number of a case is not below `count`. -/
  | unknownCase (found count : Nat)
  /-- A presence byte is neither 0 nor 1. -/
  | presenceByte (found : Nat)
  /-- A flag is neither 0 nor 1. -/
  | flagByte (found : Nat)
  /-- A text is not UTF-8. -/
  | notText (fault : Utf8.Fault)
  /-- A text names no account. -/
  | account (fault : AccountId.Fault)
  /-- Two words make no fraction. -/
  | fraction (fault : Fraction.Fault)
  deriving DecidableEq

/-- The wording of a fault. -/
def Fault.message : Fault → String
  | .endOfInput => "io error: unexpected end of file"
  | .textTooLong => "io error: "
  | .unknownCase found count =>
    "invalid value: integer `" ++ toString found ++ "`, expected variant index 0 <= i < " ++
      toString count
  | .presenceByte found => s!"tag for enum is not valid, found {found}"
  | .flagByte found => s!"invalid u8 while decoding bool, expected 0 or 1, found {found}"
  | .notText fault => s!"string is not valid utf8: {fault.message}"
  | .account fault => fault.message
  | .fraction fault => fault.message

/-- What reading gives: a value and the bytes after it. -/
abbrev Reading (α : Type) := Except Fault (α × List UInt8)

/-- A way of writing values of a type as bytes. -/
structure Format (α : Type) where
  /-- Which values can be written. -/
  fits : α → Prop
  /-- The bytes of a value. -/
  write : α → List UInt8
  /-- Reads a value from the front of a byte string. -/
  read : List UInt8 → Reading α
  /-- What was written is read back. -/
  read_write : ∀ a rest, fits a → read (write a ++ rest) = .ok (a, rest)

namespace Format

variable {α β : Type}

/-- Only what would be written is read. -/
def Exact (format : Format α) : Prop :=
  ∀ bytes a rest, format.read bytes = .ok (a, rest) →
    format.fits a ∧ bytes = format.write a ++ rest

/-! ### Words -/

/-- Numbers in `width` bytes. -/
def word (width : Nat) : Format Nat where
  fits n := n < capacity width
  write := little width
  read bytes :=
    if width ≤ bytes.length then .ok (value (bytes.take width), bytes.drop width)
    else .error .endOfInput
  read_write n rest h := by simp [value_little_of_lt h]

/-- Words are exact: any bytes of the right number are the word of what they are read as. -/
theorem word_exact (width : Nat) : (word width).Exact := by
  intro bytes n rest h
  simp only [word] at h ⊢
  split at h
  next hlen =>
    obtain ⟨rfl, rfl⟩ := Prod.mk.inj (Except.ok.inj h)
    have htake : (bytes.take width).length = width := by simp [hlen]
    have hlt := value_lt (bytes.take width)
    have hback := little_value (bytes.take width)
    rw [htake] at hlt hback
    rw [hback, List.take_append_drop]
    exact ⟨hlt, rfl⟩
  · contradiction

/-! ### Changes of type -/

/-- Values that are packed when they are read and unpacked when they are written. -/
def via (format : Format α) (pack : α → β) (unpack : β → α)
    (pack_unpack : ∀ b, pack (unpack b) = b) : Format β where
  fits b := format.fits (unpack b)
  write b := format.write (unpack b)
  read bytes :=
    match format.read bytes with
    | .ok (a, rest) => .ok (pack a, rest)
    | .error fault => .error fault
  read_write b rest h := by simp [format.read_write _ rest h, pack_unpack]

/-- A change of type is exact if unpacking undoes packing. -/
theorem Exact.via {format : Format α} (hformat : format.Exact) {pack : α → β} {unpack : β → α}
    {pack_unpack : ∀ b, pack (unpack b) = b}
    (unpack_pack : ∀ a, format.fits a → unpack (pack a) = a) :
    (format.via pack unpack pack_unpack).Exact := by
  intro bytes b rest h
  simp only [Format.via] at h ⊢
  split at h
  next a rest' hread =>
    obtain ⟨rfl, rfl⟩ := Prod.mk.inj (Except.ok.inj h)
    obtain ⟨hfits, hbytes⟩ := hformat _ _ _ hread
    rw [unpack_pack a hfits]
    exact ⟨hfits, hbytes⟩
  · contradiction

/-- Values that are checked when they are read. -/
def checked (format : Format α) (check : α → Except Fault β) (unpack : β → α)
    (check_unpack : ∀ b, check (unpack b) = .ok b) : Format β where
  fits b := format.fits (unpack b)
  write b := format.write (unpack b)
  read bytes :=
    match format.read bytes with
    | .ok (a, rest) => (check a).map fun b => (b, rest)
    | .error fault => .error fault
  read_write b rest h := by simp [format.read_write _ rest h, check_unpack, Except.map]

/-- A check is exact if what passes it is unpacked to what was checked. -/
theorem Exact.checked {format : Format α} (hformat : format.Exact)
    {check : α → Except Fault β} {unpack : β → α} {check_unpack : ∀ b, check (unpack b) = .ok b}
    (unpack_of_check : ∀ a b, check a = .ok b → unpack b = a) :
    (format.checked check unpack check_unpack).Exact := by
  intro bytes b rest h
  simp only [Format.checked] at h ⊢
  split at h
  next a rest' hread =>
    cases hcheck : check a with
    | error fault => simp [hcheck, Except.map] at h
    | ok b' =>
      rw [hcheck] at h
      obtain ⟨rfl, rfl⟩ := Prod.mk.inj (Except.ok.inj h)
      rw [unpack_of_check a b' hcheck]
      exact hformat _ _ _ hread
  · contradiction

/-! ### Sequences -/

/-- One value after another. -/
def followedBy (first : Format α) (second : Format β) : Format (α × β) where
  fits p := first.fits p.1 ∧ second.fits p.2
  write p := first.write p.1 ++ second.write p.2
  read bytes :=
    match first.read bytes with
    | .error fault => .error fault
    | .ok (a, rest) =>
      match second.read rest with
      | .error fault => .error fault
      | .ok (b, rest) => .ok ((a, b), rest)
  read_write p rest h := by
    simp [first.read_write _ _ h.1, second.read_write _ _ h.2]

/-- Two exact formats in a row are exact. -/
theorem Exact.followedBy {first : Format α} {second : Format β} (hfirst : first.Exact)
    (hsecond : second.Exact) : (first.followedBy second).Exact := by
  intro bytes p rest h
  simp only [Format.followedBy] at h ⊢
  split at h
  · contradiction
  next a mid ha =>
    split at h
    · contradiction
    next b tail hb =>
      obtain ⟨rfl, rfl⟩ := Prod.mk.inj (Except.ok.inj h)
      obtain ⟨hfits, rfl⟩ := hfirst _ _ _ ha
      obtain ⟨hfits', rfl⟩ := hsecond _ _ _ hb
      exact ⟨⟨hfits, hfits'⟩, (List.append_assoc _ _ _).symm⟩

/-- Reads so many values. -/
def readMany (format : Format α) : Nat → List UInt8 → Reading (List α)
  | 0, bytes => .ok ([], bytes)
  | count + 1, bytes =>
    match format.read bytes with
    | .error fault => .error fault
    | .ok (a, rest) =>
      match readMany format count rest with
      | .error fault => .error fault
      | .ok (as, rest) => .ok (a :: as, rest)

/-- Values written one after another are read back, as many as they are. -/
theorem readMany_flatMap (format : Format α) (as : List α) (rest : List UInt8)
    (h : ∀ a ∈ as, format.fits a) :
    format.readMany as.length (as.flatMap format.write ++ rest) = .ok (as, rest) := by
  induction as with
  | nil => rfl
  | cons a as ih =>
    simp [readMany, format.read_write a _ (h a List.mem_cons_self),
      ih fun b hb => h b (List.mem_cons_of_mem _ hb)]

/-- As many values are read as were asked for. -/
theorem length_of_readMany (format : Format α) {count : Nat} {bytes rest : List UInt8}
    {as : List α} (h : format.readMany count bytes = .ok (as, rest)) : as.length = count := by
  induction count generalizing bytes as with
  | zero =>
    obtain ⟨rfl, rfl⟩ := Prod.mk.inj (Except.ok.inj h)
    rfl
  | succ count ih =>
    rw [readMany] at h
    split at h
    · contradiction
    · split at h
      · contradiction
      next htail =>
        obtain ⟨rfl, rfl⟩ := Prod.mk.inj (Except.ok.inj h)
        simp [ih htail]

/-- Values read one after another with an exact format were written so. -/
theorem Exact.flatMap_of_readMany {format : Format α} (hformat : format.Exact) {count : Nat}
    {bytes rest : List UInt8} {as : List α} (h : format.readMany count bytes = .ok (as, rest)) :
    (∀ a ∈ as, format.fits a) ∧ bytes = as.flatMap format.write ++ rest := by
  induction count generalizing bytes as with
  | zero =>
    obtain ⟨rfl, rfl⟩ := Prod.mk.inj (Except.ok.inj h)
    simp
  | succ count ih =>
    rw [readMany] at h
    split at h
    · contradiction
    next a mid ha =>
      split at h
      · contradiction
      next as' tail htail =>
        obtain ⟨rfl, rfl⟩ := Prod.mk.inj (Except.ok.inj h)
        obtain ⟨hfits, rfl⟩ := hformat _ _ _ ha
        obtain ⟨hall, rfl⟩ := ih htail
        simp [hfits]
        exact hall

/-- A fixed number of values, one after another. -/
def vector (count : Nat) (format : Format α) : Format (Vector α count) where
  fits v := ∀ a ∈ v.toList, format.fits a
  write v := v.toList.flatMap format.write
  read bytes :=
    match h : format.readMany count bytes with
    | .error fault => .error fault
    | .ok (as, rest) => .ok (⟨as.toArray, format.length_of_readMany h⟩, rest)
  read_write v rest h := by
    have := format.readMany_flatMap v.toList rest h
    rw [Vector.length_toList] at this
    split
    next heq => simp [this] at heq
    next as rest' heq =>
      obtain ⟨rfl, rfl⟩ := Prod.mk.inj (Except.ok.inj (this.symm.trans heq))
      congr

/-- Lists, preceded by their length. -/
def list (format : Format α) : Format (List α) where
  fits as := as.length < capacity 8 ∧ ∀ a ∈ as, format.fits a
  write as := little 8 as.length ++ as.flatMap format.write
  read bytes :=
    match (word 8).read bytes with
    | .error fault => .error fault
    | .ok (count, rest) => format.readMany count rest
  read_write as rest h := by
    have hcount := (word 8).read_write as.length (as.flatMap format.write ++ rest) h.1
    rw [List.append_assoc]
    simp only [show little 8 as.length = (word 8).write as.length from rfl, hcount]
    exact format.readMany_flatMap as rest h.2

/-- Lists in an exact format are exact. -/
theorem Exact.list {format : Format α} (hformat : format.Exact) : format.list.Exact := by
  intro bytes as rest h
  simp only [Format.list] at h ⊢
  split at h
  · contradiction
  next count mid hcount =>
    obtain ⟨hfits, rfl⟩ := word_exact 8 _ _ _ hcount
    obtain ⟨hall, rfl⟩ := hformat.flatMap_of_readMany h
    obtain rfl := format.length_of_readMany h
    exact ⟨⟨hfits, hall⟩, (List.append_assoc _ _ _).symm⟩

/-! ### Texts, flags and options -/

/-- Texts in UTF-8, preceded by their length. -/
def text : Format String where
  fits s := s.utf8ByteSize < capacity 8
  write s := little 8 s.utf8ByteSize ++ utf8Bytes s
  read bytes :=
    match (word 8).read bytes with
    | .error fault => .error fault
    | .ok (size, rest) =>
      if size ≤ rest.length then
        match Utf8.decode (rest.take size) with
        | .ok s => .ok (s, rest.drop size)
        | .error fault => .error (.notText fault)
      else .error .textTooLong
  read_write s rest h := by
    have hsize := (word 8).read_write s.utf8ByteSize (utf8Bytes s ++ rest) h
    rw [List.append_assoc]
    simp only [show little 8 s.utf8ByteSize = (word 8).write s.utf8ByteSize from rfl, hsize]
    have hlen := Utf8.length_utf8Bytes s
    rw [if_pos (by simp [hlen]), ← hlen, List.take_left, List.drop_left, Utf8.decode_utf8Bytes]

/-- Texts are exact. -/
theorem text_exact : text.Exact := by
  intro bytes s rest h
  simp only [text] at h ⊢
  split at h
  · contradiction
  next size mid hsize =>
    obtain ⟨hfits, rfl⟩ := word_exact 8 _ _ _ hsize
    split at h
    next hle =>
      split at h
      next s' hs =>
        obtain ⟨rfl, rfl⟩ := Prod.mk.inj (Except.ok.inj h)
        have hbytes := Utf8.utf8Bytes_of_decode hs
        have hlen : s'.utf8ByteSize = size := by
          rw [← Utf8.length_utf8Bytes, hbytes]
          simp [hle]
        subst hlen
        refine ⟨hfits, ?_⟩
        rw [hbytes, List.append_assoc, List.take_append_drop]
        rfl
      · contradiction
    · contradiction

/-- Flags. -/
def flag : Format Bool where
  fits _ := True
  write b := [if b then 1 else 0]
  read
    | [] => .error .endOfInput
    | byte :: rest =>
      if byte = 0 then .ok (false, rest)
      else if byte = 1 then .ok (true, rest)
      else .error (.flagByte byte.toNat)
  read_write b rest _ := by cases b <;> rfl

/-- Flags are exact, as no byte but 0 and 1 is read. -/
theorem flag_exact : flag.Exact := by
  intro bytes b rest h
  cases bytes with
  | nil => contradiction
  | cons byte tail =>
    simp only [flag] at h ⊢
    split at h
    next h0 => obtain ⟨rfl, rfl⟩ := Prod.mk.inj (Except.ok.inj h); simp [h0]
    next h0 =>
      split at h
      next h1 => obtain ⟨rfl, rfl⟩ := Prod.mk.inj (Except.ok.inj h); simp [h1]
      · contradiction

/-- Values that may be missing. -/
def optional (format : Format α) : Format (Option α) where
  fits
    | none => True
    | some a => format.fits a
  write
    | none => [0]
    | some a => 1 :: format.write a
  read
    | [] => .error .endOfInput
    | byte :: rest =>
      if byte = 0 then .ok (none, rest)
      else if byte = 1 then
        match format.read rest with
        | .ok (a, rest) => .ok (some a, rest)
        | .error fault => .error fault
      else .error (.presenceByte byte.toNat)
  read_write o rest h := by
    cases o with
    | none => rfl
    | some a => simp [format.read_write a rest h]

/-- Optional values in an exact format are exact. -/
theorem Exact.optional {format : Format α} (hformat : format.Exact) : format.optional.Exact := by
  intro bytes o rest h
  cases bytes with
  | nil => contradiction
  | cons byte tail =>
    simp only [Format.optional] at h ⊢
    split at h
    next h0 => obtain ⟨rfl, rfl⟩ := Prod.mk.inj (Except.ok.inj h); simp [h0]
    next h0 =>
      split at h
      next h1 =>
        split at h
        next a mid ha =>
          obtain ⟨rfl, rfl⟩ := Prod.mk.inj (Except.ok.inj h)
          obtain ⟨hfits, rfl⟩ := hformat _ _ _ ha
          exact ⟨hfits, by simp [h1]⟩
        · contradiction
      · contradiction

end Format

end ReferralForest.Binary

import ReferralForest.Proofs.Binary.RoundTrip

/-!
# The Layout of Stored Records

A stored record is its eight fields one after another, without any frame around them. `Record.layout` says
which bytes these are, in terms of the fields alone; the formats that write and read records know nothing of
it. A record is *written in* a byte string if the string begins with the bytes of the record; what comes
after them is nobody's concern.

No two records are written in the same byte string, and reading finds the one that is. So the bytes that are
read are the bytes that are written, and no others are accepted: neither a wider number, nor another flag or
presence byte, nor a name that is no name. The only thing reading adds is missing generation counts: a
record that is written with fewer than fifteen is given padded, and the padded one is written otherwise.

## Main definitions

* `Record.layout` — the bytes of a record.
* `Record.WrittenIn` — the records a byte string begins with.

## Main statements

* `Record.decode_eq_ok_iff` — what is read is what is written, padded.
* `Record.WrittenIn.unique` — a byte string begins with one record only.
* `Record.layout_roundTrips` — the layout, the round trip, and that records are written in one way only.
-/

namespace ReferralForest

/-! ### Parts -/

namespace Binary

/-- A part of a layout that may be missing: one byte says whether it follows. -/
def present : Option (List UInt8) → List UInt8
  | none => [0]
  | some bytes => 1 :: bytes

/-- A missing value is written as a missing part. -/
theorem write_optional {α : Type} (format : Format α) (o : Option α) :
    format.optional.write o = present (o.map format.write) := by
  cases o <;> rfl

/-- A name is written with its length before it. -/
theorem write_account (a : AccountId) : account.write a = little 8 a.bytes.length ++ a.bytes := by
  rw [AccountId.length_bytes]
  rfl

/-- The counts about the first line are written one after another, each in two's complement. -/
theorem write_tallies (t : Tallies) : tallies.write t =
    [t.firstLine, t.firstLineByThree, t.team0, t.team15, t.team50, t.team100, t.team300].flatMap
      fun n => little 8 n.toUInt64.toNat := by
  simp only [List.flatMap_cons, List.flatMap_nil, List.append_nil]
  rfl

end Binary

namespace Record

open Binary

/-- **The bytes of a record**: its tier as a number of four bytes; its referrer, if there is one, as a name
with its length in eight bytes; its activity as a byte; its two stakes in sixteen bytes each; its generation
counts, with their number before them, in eight bytes each; its tallies, and the time of its downgrade, if
there is one, in eight bytes each. Numbers begin with their least significant byte. -/
def layout (r : Record) : Value :=
  little 4 r.status.rank ++
  present (r.referrer.map fun a => little 8 a.bytes.length ++ a.bytes) ++
  [if r.active then 1 else 0] ++
  little 16 r.selfStake.units ++
  little 16 r.teamStake.units ++
  little 8 r.generations.length ++
  (r.generations.flatMap fun n => little 8 n.toNat) ++
  ([r.tallies.firstLine, r.tallies.firstLineByThree, r.tallies.team0, r.tallies.team15,
    r.tallies.team50, r.tallies.team100, r.tallies.team300].flatMap fun n =>
      little 8 n.toUInt64.toNat) ++
  present (r.downgradeAt.map fun t => little 8 t.seconds.toNat)

/-- **Records are written as they are laid out.** -/
theorem encode_eq_layout (r : Record) : r.encode = r.layout := by
  have hfields : r.encode = Binary.status.write r.status ++ (account.optional.write r.referrer ++
      (Format.flag.write r.active ++ (amount.write r.selfStake ++ (amount.write r.teamStake ++
        (word64.list.write r.generations ++ (Binary.tallies.write r.tallies ++
          timestamp.optional.write r.downgradeAt)))))) := rfl
  have hname : account.write = fun a => little 8 a.bytes.length ++ a.bytes := funext write_account
  have hcounts : word64.list.write r.generations =
      little 8 r.generations.length ++ r.generations.flatMap fun n => little 8 n.toNat := rfl
  rw [hfields, write_optional, write_optional, hname, write_tallies, hcounts, layout]
  simp only [List.append_assoc]
  rfl

/-! ### What is read -/

/-- **A record is written in a byte string** that begins with its bytes. -/
def WrittenIn (r : Record) (bytes : Value) : Prop := r.Fits ∧ r.encode <+: bytes

/-- **Reading a record** gives it and the bytes after it, just if the byte string consists of the record's
bytes and those. -/
theorem read_eq_ok_iff {bytes rest : Value} {r : Record} :
    Binary.record.read bytes = .ok (r, rest) ↔ r.Fits ∧ bytes = r.encode ++ rest := by
  constructor
  · intro h
    obtain ⟨hfits, hbytes⟩ := record_exact bytes r rest h
    exact ⟨hfits.2.2.2.2.2.1.1, hbytes⟩
  · rintro ⟨hfits, rfl⟩
    exact Binary.record.read_write r rest (record_fits hfits)

/-- The record that is written in a byte string is the one that reading finds. -/
theorem writtenIn_iff {bytes : Value} {r : Record} :
    r.WrittenIn bytes ↔ ∃ rest, Binary.record.read bytes = .ok (r, rest) := by
  constructor
  · rintro ⟨hfits, rest, hbytes⟩
    exact ⟨rest, read_eq_ok_iff.mpr ⟨hfits, hbytes.symm⟩⟩
  · rintro ⟨rest, hread⟩
    obtain ⟨hfits, hbytes⟩ := read_eq_ok_iff.mp hread
    exact ⟨hfits, rest, hbytes.symm⟩

/-- **A byte string begins with one record only.** -/
theorem WrittenIn.unique {bytes : Value} {r s : Record} (hr : r.WrittenIn bytes)
    (hs : s.WrittenIn bytes) : s = r := by
  obtain ⟨rest, hread⟩ := writtenIn_iff.mp hr
  obtain ⟨rest', hread'⟩ := writtenIn_iff.mp hs
  exact (Prod.mk.inj (Except.ok.inj (hread'.symm.trans hread))).1

/-- **What is decoded is what is written**, with its generation counts padded. -/
theorem decode_eq_ok_iff {bytes : Value} {r : Record} :
    decode bytes = .ok r ↔ ∃ written : Record, written.WrittenIn bytes ∧ written.normalize = r := by
  rw [decode]
  constructor
  · intro h
    split at h
    next written rest hread => exact ⟨written, writtenIn_iff.mpr ⟨rest, hread⟩, Except.ok.inj h⟩
    next => contradiction
  · rintro ⟨written, hwritten, rfl⟩
    obtain ⟨rest, hread⟩ := writtenIn_iff.mp hwritten
    rw [hread]

/-- A record that is written with all its counts is decoded as it is written. -/
theorem WrittenIn.eq_of_decode {bytes : Value} {r written : Record} (h : written.WrittenIn bytes)
    (padded : generationCount ≤ written.generations.length) (hdecode : decode bytes = .ok r) :
    written = r := by
  obtain ⟨s, hs, rfl⟩ := decode_eq_ok_iff.mp hdecode
  obtain rfl := h.unique hs
  exact (normalize_of_length padded).symm

/-- **Records are read back, and are written in one way only.** Every record is written as it is laid out,
and read back padded, whatever comes after it. In a byte string that is read as a record, exactly one record
is written, and the one that is read is that one, padded. If it is written with all its fifteen counts, then
the bytes of what is read are the bytes at the beginning, they are what reading consumes, and no other
record is written there. -/
theorem layout_roundTrips :
    (∀ r : Record, r.encode = r.layout) ∧
    (∀ (r : Record) (after : Value), r.Fits → decode (r.encode ++ after) = .ok r.normalize) ∧
    (∀ (bytes : Value) (r : Record), decode bytes = .ok r ↔
      ∃ written : Record, written.WrittenIn bytes ∧ written.normalize = r) ∧
    ∀ (bytes : Value) (r written : Record), decode bytes = .ok r → written.WrittenIn bytes →
      generationCount ≤ written.generations.length →
        r.encode <+: bytes ∧
        Binary.record.read bytes = .ok (r, bytes.drop r.encode.length) ∧
        ∀ s : Record, s.WrittenIn bytes → s = r := by
  refine ⟨encode_eq_layout, fun r after hfits => ?_, fun bytes r => decode_eq_ok_iff,
    fun bytes r written hdecode hwritten hpadded => ?_⟩
  · exact decode_eq_ok_iff.mpr ⟨r, ⟨hfits, List.prefix_append _ _⟩, rfl⟩
  · obtain rfl := hwritten.eq_of_decode hpadded hdecode
    obtain ⟨hfits, rest, rfl⟩ := hwritten
    refine ⟨List.prefix_append _ _, ?_, fun s hs => WrittenIn.unique ⟨hfits, List.prefix_append _ _⟩ hs⟩
    exact read_eq_ok_iff.mpr ⟨hfits, by rw [List.drop_left]⟩

/-- The record of an active account that has a referrer and is about to lose its tier; two generations only
have been counted. -/
def sparse : Record :=
  { fresh (some ⟨"sponsor", by decide, by decide⟩) .guru with
    active := true, selfStake := ⟨725000000, by decide⟩, generations := [1, 2],
    tallies := ⟨-1, 0, 0, 3, 0, 0, 0⟩, downgradeAt := some ⟨86400⟩ }

/-- The sparse record with all its counts, and a byte after it. -/
def sparseInFull : Value := sparse.normalize.encode ++ [7]

/-- The sparse record is read back padded, and the padded one as it is written. -/
theorem layout_roundTrips_sparse :
    (sparse.Fits ∧ decode (sparse.encode ++ [7, 7]) = .ok sparse.normalize) ∧
    decode sparseInFull = .ok sparse.normalize ∧ sparse.normalize.WrittenIn sparseInFull ∧
    generationCount ≤ sparse.normalize.generations.length ∧
    Binary.record.read sparseInFull =
      .ok (sparse.normalize, sparseInFull.drop sparse.normalize.encode.length) := by
  have hfits : sparse.Fits := by decide
  have hread : decode sparseInFull = .ok sparse.normalize := by decide +kernel
  have hwritten : sparse.normalize.WrittenIn sparseInFull := ⟨by decide, List.prefix_append _ _⟩
  have hpadded : generationCount ≤ sparse.normalize.generations.length := by decide
  obtain ⟨-, hfollowed, -, hfull⟩ := layout_roundTrips
  obtain ⟨-, hconsumed, -⟩ := hfull sparseInFull sparse.normalize sparse.normalize hread hwritten hpadded
  exact ⟨⟨hfits, hfollowed sparse [7, 7] hfits⟩, hread, hwritten, hpadded, hconsumed⟩

-- What is read from fewer than fifteen counts is written otherwise.
example : ¬ sparse.normalize.encode <+: sparse.encode := by decide +kernel

end Record

end ReferralForest

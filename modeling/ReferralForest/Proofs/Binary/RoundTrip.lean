import Mathlib.Tactic
import ReferralForest.Binary.Stored

/-!
# Stored Values Read Back

Every record with its fifteen generation counts can be stored and is read back as it was, and so are
all parameters.

## Main statements

* `Record.decode_encode`, `Params.decode_encode` — what is stored is read back.
* `Record.decode_encode_normalize` — records that lack generation counts are read back padded.
-/

namespace ReferralForest

namespace Binary

/-- Every word of eight bytes fits. -/
theorem word64_fits (n : UInt64) : word64.fits n := n.toNat_lt

/-- Every signed word of eight bytes fits. -/
theorem int64_fits (n : Int64) : int64.fits n := n.toUInt64.toNat_lt

/-- Every amount fits its sixteen bytes. -/
theorem amount_fits (a : Amount) : amount.fits a := a.units_lt

/-- Every account's name is short enough. -/
theorem account_fits (a : AccountId) : account.fits a := by
  have hcap : 255 < capacity 8 := by decide
  exact Nat.lt_of_le_of_lt a.size_le hcap

/-- Every tier has a number below the limit. -/
theorem status_fits (s : Status) : status.fits s := by
  have hcap : 8 < capacity 4 := by decide
  exact Nat.lt_of_le_of_lt s.rank_le hcap

/-- An optional value fits if the value does. -/
theorem optional_fits {α : Type} {format : Format α} (h : ∀ a, format.fits a) (o : Option α) :
    format.optional.fits o := by
  cases o with
  | none => trivial
  | some a => exact h a

/-- A record fits if it has not too many generation counts. -/
theorem record_fits {r : Record} (h : r.generations.length < capacity 8) : record.fits r :=
  ⟨status_fits _, optional_fits account_fits _, trivial, amount_fits _, amount_fits _,
    ⟨h, fun n _ => word64_fits n⟩,
    ⟨int64_fits _, int64_fits _, int64_fits _, int64_fits _, int64_fits _, int64_fits _,
      int64_fits _⟩,
    optional_fits (fun t => word64_fits t.seconds) _⟩

/-- All parameters fit. -/
theorem params_fits (p : Params) : params.fits p :=
  ⟨fun _ _ => ⟨word64_fits _, word64_fits _⟩, word64_fits _⟩

end Binary

namespace Record

/-- A record that can be stored: the number of its generation counts can be written. -/
def Fits (r : Record) : Prop := r.generations.length < Binary.capacity 8

instance (r : Record) : Decidable r.Fits := inferInstanceAs (Decidable (_ < _))

/-- A record is read back with its generation counts padded. -/
theorem decode_encode_normalize {r : Record} (h : r.Fits) : decode r.encode = .ok r.normalize := by
  have hread := Binary.record.read_write r [] (Binary.record_fits h)
  rw [List.append_nil] at hread
  rw [decode, encode, hread]

/-- **A stored record is read back** as it was if it has all its generation counts. -/
theorem decode_encode {r : Record} (h : r.generations.length = generationCount) :
    decode r.encode = .ok r := by
  have hcap : generationCount < Binary.capacity 8 := by decide
  rw [decode_encode_normalize (h.trans_lt hcap), normalize_of_length h.ge]

/-- Padding keeps a record storable. -/
theorem Fits.normalize {r : Record} (h : r.Fits) : r.normalize.Fits := by
  have hcap : generationCount < Binary.capacity 8 := by decide
  rw [Fits] at h ⊢
  rw [Record.normalize, List.length_append, List.length_replicate]
  omega

/-- What is read is storable. -/
theorem fits_of_decode {bytes : Value} {r : Record} (h : decode bytes = .ok r) : r.Fits := by
  rw [decode] at h
  split at h
  next stored rest hread =>
      obtain rfl := Except.ok.inj h
      have hlength : stored.Fits := (Binary.record_exact bytes stored rest hread).1.2.2.2.2.2.1.1
      exact hlength.normalize
  next => contradiction

end Record

/-- **Stored parameters are read back.** -/
theorem Params.decode_encode (p : Params) : decode p.encode = .ok p := by
  have hread := Binary.params.read_write p [] (Binary.params_fits p)
  rw [List.append_nil] at hread
  rw [decode, encode, hread]

end ReferralForest

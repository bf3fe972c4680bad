import ReferralForest.Binary.Format
import ReferralForest.Params

/-!
# Stored Records and Parameters

The binary formats of what the store holds. A record is written field by field in the order of its
fields; reading one ignores bytes after it and pads the generation counts to full length.

## Main statements

* `Binary.record_exact` — the bytes a record is read from are the only ones it is written as.
-/

namespace ReferralForest

namespace Binary

/-- Unsigned words of eight bytes. -/
def word64 : Format UInt64 :=
  (Format.word 8).via UInt64.ofNat UInt64.toNat fun _ => UInt64.ofNat_toNat

/-- Words of eight bytes are exact. -/
theorem word64_exact : word64.Exact :=
  (Format.word_exact 8).via fun _ h => UInt64.toNat_ofNat_of_lt' h

/-- Signed words of eight bytes. -/
def int64 : Format Int64 :=
  word64.via UInt64.toInt64 Int64.toUInt64 fun n => n.toInt64_toUInt64

/-- Signed words of eight bytes are exact. -/
theorem int64_exact : int64.Exact :=
  word64_exact.via fun n _ => n.toUInt64_toInt64

/-- Amounts, in sixteen bytes. -/
def amount : Format Amount :=
  (Format.word 16).via (fun n => ⟨n % doubleWordSize, Nat.mod_lt _ (by decide)⟩) Amount.units
    fun a => Amount.ext (Nat.mod_eq_of_lt a.units_lt)

/-- Amounts are exact. -/
theorem amount_exact : amount.Exact :=
  (Format.word_exact 16).via fun _ h => Nat.mod_eq_of_lt h

/-- Timestamps. -/
def timestamp : Format Timestamp :=
  word64.via Timestamp.mk Timestamp.seconds fun _ => rfl

/-- Timestamps are exact. -/
theorem timestamp_exact : timestamp.Exact :=
  word64_exact.via fun _ _ => rfl

/-- Accounts, by name. -/
def account : Format AccountId :=
  Format.text.checked (fun s => (AccountId.parse s).mapError .account) AccountId.text
    fun a => by rw [AccountId.parse_text]; rfl

/-- Accounts are exact: a name that is read is the name of the account it makes. -/
theorem account_exact : account.Exact :=
  Format.text_exact.checked fun s a h => by
    cases hs : AccountId.parse s with
    | error fault => rw [hs] at h; exact nomatch h
    | ok b =>
      rw [hs] at h
      exact Except.ok.inj h ▸ AccountId.text_of_parse hs

/-- Tiers, by rank. -/
def status : Format Status :=
  (Format.word 4).checked
    (fun n => match Status.ofRank? n with
      | some s => .ok s
      | none => .error (.unknownCase n 9))
    Status.rank fun s => by simp

/-- Tiers are exact: a rank that is read is the rank of the tier it makes. -/
theorem status_exact : status.Exact :=
  (Format.word_exact 4).checked fun n s h => by
    split at h
    next s' hs => exact Except.ok.inj h ▸ Status.rank_of_ofRank? hs
    · contradiction

/-- Counts about the first line. -/
def tallies : Format Tallies :=
  (int64.followedBy <| int64.followedBy <| int64.followedBy <| int64.followedBy <|
    int64.followedBy <| int64.followedBy int64).via
    (fun (a, b, c, d, e, f, g) => ⟨a, b, c, d, e, f, g⟩)
    (fun t => (t.firstLine, t.firstLineByThree, t.team0, t.team15, t.team50, t.team100, t.team300))
    fun _ => rfl

/-- The counts about the first line are exact. -/
theorem tallies_exact : tallies.Exact :=
  (int64_exact.followedBy <| int64_exact.followedBy <| int64_exact.followedBy <|
    int64_exact.followedBy <| int64_exact.followedBy <| int64_exact.followedBy int64_exact).via
    fun _ _ => rfl

/-- Records. -/
def record : Format Record :=
  (status.followedBy <| account.optional.followedBy <| Format.flag.followedBy <|
    amount.followedBy <| amount.followedBy <| word64.list.followedBy <|
    tallies.followedBy timestamp.optional).via
    (fun (a, b, c, d, e, f, g, h) => ⟨a, b, c, d, e, f, g, h⟩)
    (fun r => (r.status, r.referrer, r.active, r.selfStake, r.teamStake, r.generations, r.tallies,
      r.downgradeAt))
    fun _ => rfl

/-- Records are exact: bytes are read as a record only if the record is written so. -/
theorem record_exact : record.Exact :=
  (status_exact.followedBy <| account_exact.optional.followedBy <| Format.flag_exact.followedBy <|
    amount_exact.followedBy <| amount_exact.followedBy <| word64_exact.list.followedBy <|
    tallies_exact.followedBy timestamp_exact.optional).via
    fun _ _ => rfl

/-- The two parts of a fraction, not necessarily in lowest terms. -/
def fraction : Format Fraction :=
  (word64.followedBy word64).checked
    (fun (num, den) => (Fraction.ofParts num den).mapError .fraction)
    (fun f => (UInt64.ofNat f.num, UInt64.ofNat f.den))
    fun f => congrArg (Except.mapError Fault.fraction) f.ofParts_parts

/-- Parameters. -/
def params : Format Params :=
  ((Format.vector maxDepth fraction).followedBy word64).via
    (fun (awards, period) => ⟨awards, period⟩)
    (fun p => (p.awards, p.gracePeriod))
    fun _ => rfl

end Binary

/-- The bytes of a record. -/
def Record.encode (r : Record) : Value := Binary.record.write r

/-- The record at the front of a byte string, with its generation counts padded. -/
def Record.decode (bytes : Value) : Except Error Record :=
  match Binary.record.read bytes with
  | .ok (r, _) => .ok r.normalize
  | .error fault => .error (.codec fault.message)

/-- The bytes of parameters. -/
def Params.encode (p : Params) : Value := Binary.params.write p

/-- The parameters at the front of a byte string. -/
def Params.decode (bytes : Value) : Except Error Params :=
  match Binary.params.read bytes with
  | .ok (p, _) => .ok p
  | .error fault => .error (.codec fault.message)

end ReferralForest

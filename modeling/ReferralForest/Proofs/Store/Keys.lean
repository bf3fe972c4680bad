import ReferralForest.Proofs.Store.View
import ReferralForest.Store.Slot

/-!
# Keys of Slots

Each slot has a key of its own, and each key says which slot it is for. The order of queue keys is
the order of their times and then of their accounts, because a time is written most significant byte
first and always takes eight bytes.

## Main statements

* `KeyRange.contains_beginningWith_iff` — what lies in the range of the keys that begin with
  given bytes.
* `Slot.key_injective` — different slots have different keys.
* `Slot.compare_key_record`, `Slot.compare_key_downgrade`, `Slot.compare_key_relation` — the orders of
  record keys, of queue keys and of the relation keys of a referrer.
* `Slot.due_contains_key_iff`, `Slot.allDowngrades_contains_key_iff` — which slots the ranges of
  the queue cover.
* `Slot.childrenOf_contains_key_iff` — which slots the range of a referrer's relations covers.
-/

namespace ReferralForest

/-- Byte strings that go on after beginnings of equal length are compared by their beginnings
first. -/
theorem Key.compare_append {p q : Key} (h : p.length = q.length) (u v : Key) :
    compare (p ++ u) (q ++ v) = (compare p q).then (compare u v) := by
  induction p generalizing q with
  | nil =>
      obtain rfl := List.length_eq_zero_iff.mp h.symm
      simp
  | cons x p ih =>
      cases q with
      | nil => simp at h
      | cons y q =>
          have hlen : p.length = q.length := by simpa using h
          rw [List.cons_append, List.cons_append, List.compare_cons_cons, List.compare_cons_cons,
            ih hlen, Ordering.then_assoc]

/-- The successor of a byte that has one. -/
theorem Key.toNat_succ_byte {b : UInt8} (h : b < 0xFF) : (b + 1).toNat = b.toNat + 1 := by
  have hlt : b.toNat < 255 := UInt8.lt_iff_toNat_lt.mp h
  rw [UInt8.toNat_add, UInt8.toNat_one, Nat.mod_eq_of_lt (by omega)]

/-- Nothing lies strictly between a byte and its successor. -/
theorem Key.not_lt_succ_byte {b x : UInt8} (hb : b < 0xFF) (h : b < x) (k : Key) :
    (compare x (b + 1)).then (compare k []) ≠ .lt := by
  have hle : b.toNat + 1 ≤ x.toNat := UInt8.lt_iff_toNat_lt.mp h
  rw [UInt8.compare_eq_toNat_compare_toNat, toNat_succ_byte hb]
  rcases Nat.lt_or_eq_of_le hle with hlt | heq
  · rw [Nat.compare_eq_gt.mpr hlt]
    nofun
  · rw [← heq, Nat.compare_eq_eq.mpr rfl]
    cases k <;> nofun

/-- **The keys that begin with given bytes** are those between the bytes and their ceiling. -/
theorem KeyRange.contains_beginningWith_iff {p k : Key} :
    (KeyRange.beginningWith p).contains k = true ↔ p <+: k := by
  simp only [beginningWith, contains]
  induction p generalizing k with
  | nil => simp [Key.ceiling?, List.isLE_compare_nil_left]
  | cons b p ih =>
      cases k with
      | nil => simp
      | cons x k =>
          rw [List.cons_prefix_cons, ← ih]
          have hswap : compare x b = (compare b x).swap := Std.OrientedOrd.eq_swap
          cases hbx : compare b x with
          | lt =>
              have hlt : b < x := Std.compare_eq_lt.mp hbx
              have hne : b ≠ x := fun e => absurd (e ▸ hlt) (UInt8.lt_irrefl x)
              have hmax : x.toNat < 256 := x.toNat_lt
              have hff : b < 0xFF := by
                rw [UInt8.lt_iff_toNat_lt] at hlt ⊢
                have : (0xFF : UInt8).toNat = 255 := rfl
                omega
              cases hp : Key.ceiling? p with
              | some above => simp [Key.ceiling?, hp, hswap, hbx, hne]
              | none => simp [Key.ceiling?, hp, hbx, hne, hff, Key.not_lt_succ_byte hff hlt]
          | eq =>
              obtain rfl := Std.LawfulEqOrd.eq_of_compare hbx
              cases hp : Key.ceiling? p with
              | some above => simp [Key.ceiling?, hp]
              | none =>
                  by_cases hff : b < 0xFF
                  · have hsucc : compare b (b + 1) = .lt := by
                      rw [UInt8.compare_eq_toNat_compare_toNat, Key.toNat_succ_byte hff]
                      exact Nat.compare_eq_lt.mpr (Nat.lt_succ_self _)
                    simp [Key.ceiling?, hp, hff, hsucc]
                  · simp [Key.ceiling?, hp, hff]
          | gt =>
              have hlt : x < b := Std.compare_eq_gt.mp hbx
              have hne : b ≠ x := fun e => absurd (e ▸ hlt) (UInt8.lt_irrefl x)
              simp [hbx, hne]

/-! ### Times in keys -/

namespace Timestamp

/-- Timestamps are equal if their numbers of seconds are. -/
@[ext] theorem ext {s t : Timestamp} (h : s.seconds.toNat = t.seconds.toNat) : s = t := by
  obtain ⟨s⟩ := s
  obtain ⟨t⟩ := t
  exact congrArg mk (UInt64.toNat_inj.mp h)

/-- Timestamps are ordered by their seconds. -/
theorem lt_iff {s t : Timestamp} : s < t ↔ s.seconds.toNat < t.seconds.toNat :=
  UInt64.lt_iff_toNat_lt

/-- Timestamps are ordered by their seconds, equal ones included. -/
theorem le_iff {s t : Timestamp} : s ≤ t ↔ s.seconds.toNat ≤ t.seconds.toNat :=
  UInt64.le_iff_toNat_le

/-- One of two timestamps is not before the other just if the other is no later. -/
theorem not_lt {s t : Timestamp} : ¬ s < t ↔ t ≤ s := by
  rw [lt_iff, le_iff, Nat.not_lt]

/-- A timestamp takes eight bytes. -/
@[simp] theorem length_bytes (t : Timestamp) : t.bytes.length = 8 := by
  simp [bytes]

/-- Numbers of equal width, most significant byte first, are ordered as byte strings. -/
theorem compare_reverse_little (width m n : Nat) (hm : m < Binary.capacity width)
    (hn : n < Binary.capacity width) :
    compare (Binary.little width m).reverse (Binary.little width n).reverse = compare m n := by
  induction width generalizing m n with
  | zero =>
      simp only [Binary.capacity, Nat.lt_one_iff] at hm hn
      subst hm hn
      rfl
  | succ width ih =>
      simp only [Binary.capacity] at hm hn
      rw [Binary.little, Binary.little, List.reverse_cons, List.reverse_cons,
        Key.compare_append (by simp), ih _ _ (by omega) (by omega), List.compare_cons_cons,
        UInt8.compare_eq_toNat_compare_toNat, UInt8.toNat_ofNat', UInt8.toNat_ofNat']
      have hm' := Nat.div_add_mod m 256
      have hn' := Nat.div_add_mod n 256
      simp only [List.compare_nil_nil, Ordering.then_eq]
      rcases Nat.lt_trichotomy (m / 256) (n / 256) with hq | hq | hq
      · rw [Nat.compare_eq_lt.mpr hq, Ordering.lt_then]
        exact (Nat.compare_eq_lt.mpr (by omega)).symm
      · rw [Nat.compare_eq_eq.mpr hq, Ordering.eq_then]
        rcases Nat.lt_trichotomy (m % 256) (n % 256) with hr | hr | hr
        · rw [Nat.compare_eq_lt.mpr hr, Nat.compare_eq_lt.mpr (by omega)]
        · rw [Nat.compare_eq_eq.mpr hr, Nat.compare_eq_eq.mpr (by omega)]
        · rw [Nat.compare_eq_gt.mpr hr, Nat.compare_eq_gt.mpr (by omega)]
      · rw [Nat.compare_eq_gt.mpr hq, Ordering.gt_then]
        exact (Nat.compare_eq_gt.mpr (by omega)).symm

/-- **The order of times is the order of their bytes.** -/
theorem compare_bytes (s t : Timestamp) :
    compare s.bytes t.bytes = compare s.seconds.toNat t.seconds.toNat :=
  compare_reverse_little 8 _ _ s.seconds.toNat_lt t.seconds.toNat_lt

/-- A time is read back from its bytes. -/
@[simp] theorem ofBytes_bytes (t : Timestamp) : ofBytes t.bytes = t := by
  have hlt : t.seconds.toNat < Binary.capacity 8 := t.seconds.toNat_lt
  simp [ofBytes, bytes, Binary.value_little_of_lt hlt]

/-- Times with equal bytes are equal. -/
theorem bytes_injective {s t : Timestamp} (h : s.bytes = t.bytes) : s = t := by
  rw [← ofBytes_bytes s, h, ofBytes_bytes]

end Timestamp

/-- A name preceded by its length tells where it ends. -/
theorem AccountId.sizedBytes_append_inj {a b : AccountId} {u v : Key}
    (h : a.sizedBytes ++ u = b.sizedBytes ++ v) : a = b ∧ u = v := by
  simp only [sizedBytes, List.cons_append, List.cons.injEq] at h
  obtain ⟨hsize, hrest⟩ := h
  have hlen : a.bytes.length = b.bytes.length := by
    have := congrArg UInt8.toNat hsize
    rw [UInt8.toNat_ofNat', UInt8.toNat_ofNat'] at this
    have ha := a.length_bytes_le
    have hb := b.length_bytes_le
    omega
  obtain ⟨hbytes, huv⟩ := List.append_inj hrest hlen
  exact ⟨bytes_injective hbytes, huv⟩

/-! ### Slots -/

namespace Slot

/-- The first byte of the keys of a slot's family. -/
def family : Slot → UInt8
  | record _ => recordFamily
  | relation _ _ => relationFamily
  | params => paramsFamily
  | downgrade _ _ => downgradeFamily

/-- Every key begins with the byte of its family. -/
theorem exists_key_eq_cons (slot : Slot) : ∃ rest, slot.key = slot.family :: rest := by
  cases slot <;> exact ⟨_, rfl⟩

/-- No slot lies at the empty key. -/
theorem key_ne_nil (slot : Slot) : slot.key ≠ [] := by
  obtain ⟨rest, h⟩ := slot.exists_key_eq_cons
  simp [h]

/-- **Different slots have different keys.** -/
theorem key_injective {slot slot' : Slot} (h : slot.key = slot'.key) : slot = slot' := by
  have hfamily : slot.family = slot'.family := by
    obtain ⟨rest, hrest⟩ := slot.exists_key_eq_cons
    obtain ⟨rest', hrest'⟩ := slot'.exists_key_eq_cons
    rw [hrest, hrest'] at h
    exact (List.cons.inj h).1
  cases slot <;> cases slot' <;> simp only [family] at hfamily <;>
    try exact absurd hfamily (by decide)
  case record.record a b =>
      exact congrArg record (AccountId.bytes_injective (List.cons.inj h).2)
  case relation.relation p c q d =>
      simp only [key, childrenOf, List.cons_append, List.cons.injEq, true_and] at h
      obtain ⟨rfl, hchild⟩ := AccountId.sizedBytes_append_inj h
      rw [← List.append_nil c.sizedBytes, ← List.append_nil d.sizedBytes] at hchild
      obtain ⟨rfl, -⟩ := AccountId.sizedBytes_append_inj hchild
      rfl
  case params.params => rfl
  case downgrade.downgrade s a t b =>
      obtain ⟨hs, ha⟩ := List.append_inj (List.cons.inj h).2 (by simp)
      rw [Timestamp.bytes_injective hs, AccountId.bytes_injective ha]

/-- The key of a record is read back. -/
@[simp] theorem parseRecord_key (a : AccountId) : parseRecord (record a).key = .ok a := by
  simp [parseRecord, key, a.bytes_ne_nil, Except.mapError]

/-- The key of a queue entry is read back. -/
@[simp] theorem parseDowngrade_key (t : Timestamp) (a : AccountId) :
    parseDowngrade (downgrade t a).key = .ok (t, a) := by
  have hpos := a.length_bytes_pos
  have htake : (t.bytes ++ a.bytes).take 8 = t.bytes := List.take_left' t.length_bytes
  have hdrop : (t.bytes ++ a.bytes).drop 8 = a.bytes := List.drop_left' t.length_bytes
  have hlong : downgradeFamily = downgradeFamily ∧ 9 ≤ (t.bytes ++ a.bytes).length := by
    rw [List.length_append, t.length_bytes]
    exact ⟨rfl, by omega⟩
  rw [key, parseDowngrade, if_pos hlong, htake, hdrop, AccountId.ofBytes_bytes,
    Timestamp.ofBytes_bytes]

/-- The length of a name fits the byte it is written in. -/
theorem toNat_sizeByte (a : AccountId) : (UInt8.ofNat a.bytes.length).toNat = a.bytes.length := by
  have hle := a.length_bytes_le
  rw [UInt8.toNat_ofNat', Nat.mod_eq_of_lt (by omega)]

/-- The key of a relation is read back. -/
@[simp] theorem parseRelation_key (p c : AccountId) :
    parseRelation (relation p c).key = .ok (p, c) := by
  have htake : (p.bytes ++ c.sizedBytes).take p.bytes.length = p.bytes := List.take_left' rfl
  have hdrop : (p.bytes ++ c.sizedBytes).drop p.bytes.length = c.sizedBytes := List.drop_left' rfl
  have hsplit : splitRelation (relation p c).key = .ok (p.bytes, c.bytes) := by
    simp only [key, childrenOf, AccountId.sizedBytes, List.cons_append, splitRelation, ne_eq,
      not_true_eq_false, if_false, toNat_sizeByte] at htake hdrop ⊢
    rw [htake, hdrop]
    simp [Nat.mod_eq_of_lt (show c.bytes.length < 256 from Nat.lt_succ_of_le c.length_bytes_le)]
  have hread : ∀ a : AccountId,
      (AccountId.ofBytes a.bytes).mapError AccountId.Fault.message = .ok a := by
    intro a
    rw [AccountId.ofBytes_bytes]
    rfl
  rw [parseRelation, hsplit]
  dsimp only [bind, Except.bind]
  rw [hread, hread]
  rfl

/-- **The order of record keys** is that of their accounts. -/
theorem compare_key_record (a b : AccountId) :
    compare (record a).key (record b).key = compare a b := by
  rw [key, key, List.compare_cons_cons, Std.ReflOrd.compare_self, Ordering.eq_then]
  rfl

/-- **The order of queue keys** is that of their times, and then that of their accounts. -/
theorem compare_key_downgrade (s t : Timestamp) (a b : AccountId) :
    compare (downgrade s a).key (downgrade t b).key =
      (compare s.seconds.toNat t.seconds.toNat).then (compare a b) := by
  have hlen : s.bytes.length = t.bytes.length := by simp
  rw [key, key, List.compare_cons_cons, Std.ReflOrd.compare_self, Ordering.eq_then,
    Key.compare_append hlen, Timestamp.compare_bytes, AccountId.compare_def]

/-- **The order of the relation keys of a referrer** is that of the lengths of the referrals' names, and
then that of the names. -/
theorem compare_key_relation (p c d : AccountId) :
    compare (relation p c).key (relation p d).key =
      (compare c.bytes.length d.bytes.length).then (compare c d) := by
  rw [key, key, Key.compare_append rfl, Std.ReflOrd.compare_self, Ordering.eq_then,
    AccountId.sizedBytes, AccountId.sizedBytes, List.compare_cons_cons,
    UInt8.compare_eq_toNat_compare_toNat, toNat_sizeByte, toNat_sizeByte, AccountId.compare_def]

/-! ### Ranges -/

/-- The keys with the first byte of a family. -/
theorem beginningWith_contains_key_iff {byte : UInt8} {slot : Slot} :
    (KeyRange.beginningWith [byte]).contains slot.key = true ↔ slot.family = byte := by
  obtain ⟨rest, hrest⟩ := slot.exists_key_eq_cons
  rw [KeyRange.contains_beginningWith_iff, hrest, List.cons_prefix_cons]
  simp [eq_comm]

/-- The range of all records covers just the records. -/
theorem allRecords_contains_key_iff {slot : Slot} :
    allRecords.contains slot.key = true ↔ ∃ a, slot = record a := by
  rw [allRecords, beginningWith_contains_key_iff]
  cases slot <;> simp [family, recordFamily, relationFamily, paramsFamily, downgradeFamily]

/-- The keys of all relations of a referrer cover just those. -/
theorem childrenOf_contains_key_iff {p : AccountId} {slot : Slot} :
    (KeyRange.beginningWith (childrenOf p)).contains slot.key = true ↔ ∃ c, slot = relation p c := by
  rw [KeyRange.contains_beginningWith_iff]
  constructor
  · rintro ⟨rest, hrest⟩
    obtain ⟨tail, htail⟩ := slot.exists_key_eq_cons
    have hfamily : relationFamily = slot.family := by
      rw [htail] at hrest
      exact (List.cons.inj hrest).1
    cases slot with
    | relation q c =>
        simp only [key, childrenOf, List.cons_append, List.cons.injEq, true_and] at hrest
        obtain ⟨rfl, -⟩ := AccountId.sizedBytes_append_inj hrest
        exact ⟨c, rfl⟩
    | record | params | downgrade =>
        simp only [family] at hfamily
        contradiction
  · rintro ⟨c, rfl⟩
    exact List.prefix_append _ _

/-- The range of the whole queue covers just the queue entries. -/
theorem allDowngrades_contains_key_iff {slot : Slot} :
    allDowngrades.contains slot.key = true ↔ ∃ t a, slot = downgrade t a := by
  rw [allDowngrades, beginningWith_contains_key_iff]
  cases slot <;> simp [family, recordFamily, relationFamily, paramsFamily, downgradeFamily]

/-- A queue key lies before the end of the due part if its time is not after `now`. -/
theorem compare_key_queueEnd (now t : Timestamp) (a : AccountId) :
    compare (downgrade t a).key (queueEnd now) = .lt ↔ t ≤ now := by
  rw [queueEnd]
  cases hnext : now.add? 1 with
  | some next =>
      rw [Timestamp.add?_eq_some_iff, UInt64.toNat_one] at hnext
      have hlen : t.bytes.length = next.bytes.length := by simp
      have happend := Key.compare_append hlen a.bytes []
      rw [List.append_nil] at happend
      have hgt : compare a.bytes [] = .gt := by
        obtain ⟨x, rest, hx⟩ := List.exists_cons_of_ne_nil a.bytes_ne_nil
        rw [hx, List.compare_cons_nil]
      rw [key, List.compare_cons_cons, Std.ReflOrd.compare_self, Ordering.eq_then, happend,
        Timestamp.compare_bytes, hgt, Ordering.then_eq_lt, Nat.compare_eq_lt, Timestamp.le_iff]
      simp
      omega
  | none =>
      have hmax : now.seconds.toNat + 1 = UInt64.size := by
        rw [Timestamp.add?] at hnext
        split at hnext
        · contradiction
        next h =>
            have := now.seconds.toNat_lt
            have h1 : (1 : UInt64).toNat = 1 := rfl
            have h2 : UInt64.size = 2 ^ 64 := rfl
            omega
      have hlt : compare downgradeFamily (downgradeFamily + 1) = .lt := rfl
      have ht := t.seconds.toNat_lt
      have hsize : UInt64.size = 2 ^ 64 := rfl
      rw [key, List.compare_cons_cons, hlt, Ordering.lt_then, Timestamp.le_iff]
      simp
      omega

/-- **The due part of the queue** covers just the entries whose time is not after `now`. -/
theorem due_contains_key_iff {now : Timestamp} {slot : Slot} :
    (due now).contains slot.key = true ↔ ∃ t a, slot = downgrade t a ∧ t ≤ now := by
  obtain ⟨rest, hrest⟩ := slot.exists_key_eq_cons
  simp only [due, KeyRange.contains, Bool.and_eq_true, Ordering.isLT_iff_eq_lt]
  by_cases hslot : ∃ t a, slot = downgrade t a
  · obtain ⟨t, a, rfl⟩ := hslot
    have hle : (compare [downgradeFamily] (downgrade t a).key).isLE = true := by
      rw [key, List.compare_cons_cons, Std.ReflOrd.compare_self, Ordering.eq_then]
      exact List.isLE_compare_nil_left
    rw [compare_key_queueEnd]
    simp [hle]
  · have hgt : compare downgradeFamily slot.family = .gt := by
      cases slot with
      | downgrade t a => exact absurd ⟨t, a, rfl⟩ hslot
      | _ => rfl
    rw [hrest, List.compare_cons_cons, hgt, Ordering.gt_then]
    constructor
    · rintro ⟨h, -⟩
      contradiction
    · rintro ⟨t, a, h, -⟩
      exact absurd ⟨t, a, h⟩ hslot

end Slot

end ReferralForest

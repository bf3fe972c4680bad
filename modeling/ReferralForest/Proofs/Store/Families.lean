import ReferralForest.Proofs.Store.Keys

/-!
# Families of Keys

Whatever bytes lie in a store, they are read as a slot only if they are its key. A parser gives up the
length of a name, and the width of a time, only to a key in which they are right, so that nothing is lost
by reading: what is read is written back byte by byte. With the order of keys, which compares the byte of
the family first, this tells which keys the due part of the queue holds and in which order they lie there.

## Main statements

* `Slot.parseRecord_eq_ok_iff`, `Slot.parseRelation_eq_ok_iff`, `Slot.parseDowngrade_eq_ok_iff` — a parser
  accepts the keys of its family and nothing else.
* `Slot.childrenOf_prefix_iff` — which relations begin with the bytes of a referrer.
* `Slot.keys_unambiguous` — keys and slots determine each other.
* `Slot.queue_sorted` — queue keys lie in order of time and account, the due ones before the end.
-/

namespace ReferralForest

/-! ### Byte strings -/

namespace Key

/-- Keys are compared as lists are. -/
theorem compare_eq_lt_iff {k k' : Key} : compare k k' = .lt ↔ k < k' := by
  induction k generalizing k' with
  | nil => cases k' <;> simp
  | cons x k ih =>
      cases k' with
      | nil => simp
      | cons y k' =>
          rw [List.compare_cons_cons, Ordering.then_eq_lt, ih, Std.compare_eq_lt, Std.compare_eq_iff_eq,
            List.cons_lt_cons_iff]

/-- Comparing keys decides their order. -/
theorem isLE_compare_iff {k k' : Key} : (compare k k').isLE = true ↔ k ≤ k' := by
  rw [Std.OrientedOrd.eq_swap, Ordering.isLE_swap, ← List.not_lt, ← compare_eq_lt_iff,
    Ordering.isGE_iff_ne_lt]

end Key

/-- **What a range contains**, in the order of lists. -/
theorem KeyRange.contains_iff {start stop k : Key} :
    (KeyRange.mk start (some stop)).contains k = true ↔ start ≤ k ∧ k < stop := by
  rw [contains, Bool.and_eq_true, Key.isLE_compare_iff, Ordering.isLT_iff_eq_lt, Key.compare_eq_lt_iff]

/-- Eight bytes are written back from the time they stand for. -/
theorem Timestamp.bytes_ofBytes {bytes : List UInt8} (h : bytes.length = 8) :
    (ofBytes bytes).bytes = bytes := by
  have hlength : bytes.reverse.length = 8 := bytes.length_reverse.trans h
  have hvalue := Binary.value_lt bytes.reverse
  have hlittle := Binary.little_value bytes.reverse
  rw [hlength] at hvalue hlittle
  rw [ofBytes, Timestamp.bytes, UInt64.toNat_ofNat_of_lt' hvalue, hlittle, List.reverse_reverse]

/-- The order of times and that of their numbers of seconds. -/
theorem Timestamp.compare_eq_lt_iff {s t : Timestamp} :
    compare s.seconds.toNat t.seconds.toNat = .lt ↔ s < t := by
  rw [Nat.compare_eq_lt, lt_iff]

namespace Slot

/-! ### Reading keys -/

/-- Wording the faults of a reader changes nothing about what it accepts. -/
theorem mapError_eq_ok_iff {ε ε' α : Type} {x : Except ε α} {f : ε → ε'} {a : α} :
    x.mapError f = .ok a ↔ x = .ok a := by
  cases x <;> simp [Except.mapError]

/-- **The record parser** accepts the keys of records. -/
theorem parseRecord_eq_ok_iff {k : Key} {a : AccountId} :
    parseRecord k = .ok a ↔ (record a).key = k := by
  refine ⟨fun h => ?_, fun h => h ▸ parseRecord_key a⟩
  cases k with
  | nil => contradiction
  | cons family name =>
      rw [parseRecord] at h
      split at h
      next hfamily =>
          obtain ⟨rfl, -⟩ := hfamily
          rw [key, AccountId.bytes_of_ofBytes (mapError_eq_ok_iff.mp h)]
      next => contradiction

/-- The parts of a relation key, with their lengths where they belong. Every branch but the last refuses the
key. -/
theorem eq_of_splitRelation {k : Key} {p c : List UInt8} (h : splitRelation k = .ok (p, c)) :
    k = relationFamily :: UInt8.ofNat p.length :: (p ++ UInt8.ofNat c.length :: c) := by
  unfold splitRelation at h
  split at h
  · contradiction
  split at h
  · contradiction
  next hfamily =>
  split at h
  · contradiction
  next size rest =>
  split at h
  · contradiction
  next hsize =>
  split at h
  · contradiction
  next childSize child hdrop =>
  split at h
  · contradiction
  next hchild =>
  obtain ⟨rfl, rfl⟩ := Prod.mk.inj (Except.ok.inj h)
  have hlength : (rest.take size.toNat).length = size.toNat := by
    rw [List.length_take]
    omega
  rw [of_not_not hfamily, hlength, of_not_not hchild, UInt8.ofNat_toNat, UInt8.ofNat_toNat, ← hdrop,
    List.take_append_drop]

/-- **The relation parser** accepts the keys of relations. -/
theorem parseRelation_eq_ok_iff {k : Key} {p c : AccountId} :
    parseRelation k = .ok (p, c) ↔ (relation p c).key = k := by
  refine ⟨fun h => ?_, fun h => h ▸ parseRelation_key p c⟩
  have hread := mapError_eq_ok_iff.mp h
  cases hsplit : splitRelation k with
  | error what => simp [hsplit, bind, Except.bind] at hread
  | ok parts =>
      obtain ⟨u, v⟩ := parts
      simp only [hsplit, bind, Except.bind] at hread
      split at hread
      next => contradiction
      next p' hp =>
          split at hread
          next => contradiction
          next c' hc =>
              obtain ⟨rfl, rfl⟩ := Prod.mk.inj (Except.ok.inj hread)
              rw [eq_of_splitRelation hsplit, ← AccountId.bytes_of_ofBytes (mapError_eq_ok_iff.mp hp),
                ← AccountId.bytes_of_ofBytes (mapError_eq_ok_iff.mp hc)]
              rfl

/-- **The queue parser** accepts the keys of queue entries. -/
theorem parseDowngrade_eq_ok_iff {k : Key} {t : Timestamp} {a : AccountId} :
    parseDowngrade k = .ok (t, a) ↔ (downgrade t a).key = k := by
  refine ⟨fun h => ?_, fun h => h ▸ parseDowngrade_key t a⟩
  cases k with
  | nil => contradiction
  | cons family rest =>
      rw [parseDowngrade] at h
      split at h
      next hfamily =>
          obtain ⟨rfl, hlong⟩ := hfamily
          split at h
          next account haccount =>
              obtain ⟨rfl, rfl⟩ := Prod.mk.inj (Except.ok.inj h)
              have hwidth : (rest.take 8).length = 8 := by
                rw [List.length_take]
                omega
              rw [key, Timestamp.bytes_ofBytes hwidth, AccountId.bytes_of_ofBytes haccount,
                List.take_append_drop]
          next => contradiction
      next => contradiction

/-- **The relations of a referrer** are those whose keys begin with the bytes of its name and length. -/
theorem childrenOf_prefix_iff {p q c : AccountId} : childrenOf p <+: (relation q c).key ↔ q = p := by
  rw [← KeyRange.contains_beginningWith_iff, childrenOf_contains_key_iff]
  constructor
  · rintro ⟨d, hd⟩
    exact (relation.inj hd).1
  · rintro rfl
    exact ⟨c, rfl⟩

/-- **Keys and slots determine each other.** Each parser accepts the keys of its family and nothing else,
gives the parts they were made of, and no two slots share a key, of whatever families they are. A relation
begins as the relations of a referrer do just if it is one of them. -/
theorem keys_unambiguous :
    (∀ k a, parseRecord k = .ok a ↔ (record a).key = k) ∧
      (∀ k p c, parseRelation k = .ok (p, c) ↔ (relation p c).key = k) ∧
      (∀ k t a, parseDowngrade k = .ok (t, a) ↔ (downgrade t a).key = k) ∧
      (∀ slot slot' : Slot, slot.key = slot'.key ↔ slot = slot') ∧
      ∀ p q c, childrenOf p <+: (relation q c).key ↔ q = p :=
  ⟨fun _ _ => parseRecord_eq_ok_iff, fun _ _ _ => parseRelation_eq_ok_iff,
    fun _ _ _ => parseDowngrade_eq_ok_iff, fun _ _ => ⟨key_injective, congrArg key⟩,
    fun _ _ _ => childrenOf_prefix_iff⟩

/-! ### The queue -/

/-- Queue keys are ordered by time, and by account at one time. -/
theorem key_downgrade_lt_iff {s t : Timestamp} {a b : AccountId} :
    (downgrade s a).key < (downgrade t b).key ↔ s < t ∨ s = t ∧ a.bytes < b.bytes := by
  rw [← Key.compare_eq_lt_iff, compare_key_downgrade, Ordering.then_eq_lt, Timestamp.compare_eq_lt_iff,
    Nat.compare_eq_eq, AccountId.compare_def, Key.compare_eq_lt_iff]
  exact or_congr_right (and_congr_left' ⟨Timestamp.ext, fun h => h ▸ rfl⟩)

/-- **The queue is sorted.** Its keys lie in order of time, and in order of the bytes of the accounts at one
time; and the keys from the byte of the family up to the end of the due part are those of the entries whose
time is not after `now`, be it the last there is, and no keys of other families. -/
theorem queue_sorted :
    (∀ s t a b, (downgrade s a).key < (downgrade t b).key ↔ s < t ∨ s = t ∧ a.bytes < b.bytes) ∧
      (∀ now k, (due now).contains k = true ↔ [downgradeFamily] ≤ k ∧ k < queueEnd now) ∧
      ∀ now (slot : Slot), ([downgradeFamily] ≤ slot.key ∧ slot.key < queueEnd now) ↔
        ∃ t a, slot = downgrade t a ∧ t ≤ now :=
  ⟨fun _ _ _ _ => key_downgrade_lt_iff, fun _ _ => KeyRange.contains_iff,
    fun _ _ => KeyRange.contains_iff.symm.trans due_contains_key_iff⟩

end Slot

end ReferralForest

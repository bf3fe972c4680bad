import Mathlib.Order.Bounds.Basic
import ReferralForest.Proofs.Program.Admitted
import ReferralForest.Proofs.Store.Families

/-!
# Scanning by a Beginning

The records, the referrals of an account and the whole queue are listed by *scans*: a store is asked for the
keys that begin with given bytes. A store only knows ranges, so a scan is a range from the given bytes up to
their *ceiling*, the least key above all keys that begin with them. The ceiling is found from the end of the
bytes: a last byte that can be raised is raised, and one that cannot is dropped, so that the ceiling may be
shorter than the bytes, and missing altogether.

Keys of any length are compared, bytewise and with a proper beginning first. What a scan finds is stated in
that order and in terms of the view of the store, whatever the store allows: only a store whose calls are
counted and used up refuses to scan.

## Main definitions

* `Store.Exhausted` — stores that admit no more calls.

## Main statements

* `Key.ceiling?_concat` — how the last byte decides about the ceiling.
* `Key.ceiling?_eq_some_iff` — the ceiling is the least key above all keys with that beginning.
* `Store.scan_exact` — which keys lie below the ceiling, and what a scan finds in any store.
-/

namespace ReferralForest

namespace Key

variable {p k above : Key}

/-! ### The ceiling -/

/-- **The last byte** is raised if it can be, and is dropped otherwise. -/
theorem ceiling?_concat (p : Key) (b : UInt8) :
    ceiling? (p ++ [b]) = if b < 0xFF then some (p ++ [b + 1]) else ceiling? p := by
  induction p with
  | nil => rfl
  | cons x p ih =>
      by_cases hb : b < 0xFF
      · rw [if_pos hb] at ih ⊢
        rw [List.cons_append, ceiling?, ih]
        rfl
      · rw [if_neg hb] at ih ⊢
        rw [List.cons_append, ceiling?, ih, ceiling?]

example : ceiling? [0x02, 0xFE, 0xFF, 0xFF] = some [0x02, 0xFF] := rfl

/-! ### Keys below the ceiling -/

/-- **The keys with a beginning** are those from it on that lie below its ceiling, if it has one. -/
theorem prefix_iff_le_and : p <+: k ↔
    p ≤ k ∧ (ceiling? p = none ∨ ∃ above, ceiling? p = some above ∧ k < above) := by
  rw [← KeyRange.contains_beginningWith_iff, KeyRange.beginningWith]
  cases hceiling : ceiling? p with
  | some above => simp [KeyRange.contains_iff]
  | none => simp [KeyRange.contains, isLE_compare_iff]

/-- Keys with a beginning lie below its ceiling. -/
theorem lt_ceiling (h : p <+: k) (hceiling : ceiling? p = some above) : k < above := by
  obtain ⟨-, hnone | ⟨above', hsome, hlt⟩⟩ := prefix_iff_le_and.mp h
  · rw [hceiling] at hnone
    contradiction
  · rw [hceiling, Option.some.injEq] at hsome
    exact hsome ▸ hlt

/-- A key above all keys with a beginning is not below the ceiling, which there is. Otherwise the key would
have the beginning itself, and be above itself. -/
theorem exists_ceiling_le (h : ∀ q, p <+: q → q < k) : ∃ above, ceiling? p = some above ∧ above ≤ k := by
  have hle : p ≤ k := List.le_of_lt (h p (List.prefix_refl p))
  have hnot : ¬ p <+: k := fun hk => List.lt_irrefl k (h k hk)
  rw [prefix_iff_le_and, not_and, not_or] at hnot
  obtain ⟨hsome, hall⟩ := hnot hle
  obtain ⟨above, habove⟩ := Option.ne_none_iff_exists'.mp hsome
  exact ⟨above, habove, List.not_lt.mp fun hlt => hall ⟨above, habove, hlt⟩⟩

/-- **The ceiling** is the least key above all keys with a beginning. There is none if no key lies above
them all. -/
theorem ceiling?_eq_some_iff : ceiling? p = some above ↔ IsLeast {k | ∀ q, p <+: q → q < k} above := by
  constructor
  · intro h
    refine ⟨fun q hq => lt_ceiling hq h, fun k hk => ?_⟩
    obtain ⟨above', habove', hle⟩ := exists_ceiling_le hk
    rw [h, Option.some.injEq] at habove'
    exact habove' ▸ hle
  · rintro ⟨habove, hleast⟩
    obtain ⟨above', habove', hle⟩ := exists_ceiling_le habove
    have hge : above ≤ above' := hleast fun q hq => lt_ceiling hq habove'
    rw [habove', List.le_antisymm hle hge]

end Key

namespace Store

variable {store : Store} {range : KeyRange}

/-! ### Scans -/

/-- The calls of a store are counted, and those that it admits are used up. -/
def Exhausted (store : Store) : Prop :=
  ∃ limit used, store.base.policy = .metered limit used ∧ limit ≤ used

/-- Whether a store admits a listing. -/
def listingVerdict (store : Store) : Except Fault Unit :=
  Prod.fst <| store.base.policy.admit .list

/-- Listing is admitted unless the calls are used up. -/
theorem listingVerdict_cases (store : Store) :
    store.listingVerdict = .ok () ∧ ¬ store.Exhausted ∨
      (∃ used, store.listingVerdict = .error (.outOfGas used)) ∧ store.Exhausted := by
  rw [listingVerdict]
  cases hpolicy : store.base.policy with
  | free | keySized => simp [Exhausted, Policy.admit, hpolicy]
  | metered limit used =>
      rcases Nat.lt_or_ge used limit with hlt | hge
      · left
        simp [Exhausted, Policy.admit, hpolicy, hlt]
      · right
        simp [Exhausted, Policy.admit, hpolicy, hge, Nat.not_lt.mpr hge]

/-- **A range that is not empty** is listed from the view if listing is admitted. -/
theorem range_eq_map_listingVerdict (proper : range.isEmpty = false) :
    (store.range range).1 = store.listingVerdict.map fun _ =>
      (store.view.filter fun k _ => range.contains k).toList := by
  have hcases := (store.range_cases range).2
  rw [Store.range, proper, Bool.and_false, if_neg Bool.false_ne_true, onBase, Base.range,
    Base.access] at hcases ⊢
  rw [listingVerdict]
  cases hverdict : store.base.policy.admit .list with
  | mk verdict policy =>
      cases verdict with
      | ok =>
          rw [hverdict] at hcases
          rcases hcases with hlisted | ⟨fault, hrefused⟩
          · exact hlisted
          · contradiction
      | error fault => rfl

/-- The range of a beginning is not empty: the beginning itself lies in it. -/
theorem isEmpty_beginningWith (p : Key) : (KeyRange.beginningWith p).isEmpty = false := by
  by_contra h
  have hself : (KeyRange.beginningWith p).contains p = true :=
    KeyRange.contains_beginningWith_iff.mpr (List.prefix_refl p)
  rw [KeyRange.not_contains_of_isEmpty (Bool.of_not_eq_false h)] at hself
  contradiction

/-- The entries of a map that pass a test are in ascending order. -/
theorem pairwise_lt_filter (m : SortedMap Key Value) (test : Key → Value → Bool) :
    (m.filter test).toList.Pairwise fun e e' => e.1 < e'.1 :=
  (m.filter test).sorted.imp Key.compare_eq_lt_iff.mp

/-- The entries of a map whose keys have a beginning. -/
theorem mem_filter_beginningWith_iff {m : SortedMap Key Value} {p k : Key} {v : Value} :
    (k, v) ∈ (m.filter fun k _ => (KeyRange.beginningWith p).contains k).toList ↔
      m.get? k = some v ∧ p <+: k := by
  rw [SortedMap.mem_toList_iff, SortedMap.get?_filter, Option.filter_eq_some_iff,
    KeyRange.contains_beginningWith_iff]

/-- **Scans are exact.** The ceiling is found from the end: a last byte that can be raised is raised, and
every other one is dropped. The keys that begin with given bytes are just those from the bytes on that lie
below their ceiling, or all of them if there is no ceiling. So in every store, with or without branches and
whatever it allows, a scan finds the entries of the view whose keys begin with the bytes, and no others, in
ascending order; only a store whose calls are used up refuses it. -/
theorem scan_exact :
    (Key.ceiling? [] = none ∧
      ∀ p b, Key.ceiling? (p ++ [b]) = if b < 0xFF then some (p ++ [b + 1]) else Key.ceiling? p) ∧
    (∀ p k : Key, p <+: k ↔
      p ≤ k ∧ (Key.ceiling? p = none ∨ ∃ above, Key.ceiling? p = some above ∧ k < above)) ∧
    ∀ (store : Store) (p : Key), ∃ found : List (Key × Value),
      found.Pairwise (fun e e' => e.1 < e'.1) ∧
      (∀ k v, (k, v) ∈ found ↔ store.view.get? k = some v ∧ p <+: k) ∧
      ((store.range (.beginningWith p)).1 = .ok found ∧ ¬ store.Exhausted ∨
        (∃ used, (store.range (.beginningWith p)).1 = .error (.outOfGas used)) ∧ store.Exhausted) := by
  refine ⟨⟨rfl, Key.ceiling?_concat⟩, fun _ _ => Key.prefix_iff_le_and, fun store p => ?_⟩
  refine ⟨_, pairwise_lt_filter store.view fun k _ => (KeyRange.beginningWith p).contains k,
    fun _ _ => mem_filter_beginningWith_iff, ?_⟩
  rw [range_eq_map_listingVerdict (isEmpty_beginningWith p)]
  rcases store.listingVerdict_cases with ⟨hok, hleft⟩ | ⟨⟨used, herror⟩, hused⟩
  · rw [hok]
    exact .inl ⟨rfl, hleft⟩
  · rw [herror]
    exact .inr ⟨⟨used, rfl⟩, hused⟩

end Store

end ReferralForest

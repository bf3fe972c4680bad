/-!
# Sorted Maps

Finite maps as lists of entries in strictly ascending key order. The order is part of the type, so
two maps with the same look-ups are equal (`ext_get?`), the list of entries is the map in key order,
and a walk over a map is a walk over a list.

## Main statements

* `get?_insert_self`, `get?_insert_of_ne`, `get?_erase_self`, `get?_erase_of_ne`, `get?_filter` —
  one equation per operation through the look-up.
* `mem_toList_iff` — the entries are exactly the look-ups that succeed.
* `ext_get?` — look-ups determine the map.
-/

namespace ReferralForest

/-- A finite map whose entries stand in strictly ascending key order. -/
structure SortedMap (κ ν : Type) [Ord κ] where
  /-- The entries, in key order. -/
  toList : List (κ × ν)
  sorted : toList.Pairwise fun a b => compare a.1 b.1 = .lt
  deriving DecidableEq

namespace SortedMap

variable {κ ν : Type} [Ord κ]

/-! ### On lists of entries -/

/-- The value of the entry with key `k`; the search stops at the first greater key. -/
def lookup (k : κ) : List (κ × ν) → Option ν
  | [] => none
  | e :: rest =>
    match compare k e.1 with
    | .lt => none
    | .eq => some e.2
    | .gt => lookup k rest

/-- The entries with the one for `k` put in its place, or replaced. -/
def insertEntry (k : κ) (v : ν) : List (κ × ν) → List (κ × ν)
  | [] => [(k, v)]
  | e :: rest =>
    match compare k e.1 with
    | .lt => (k, v) :: e :: rest
    | .eq => (k, v) :: rest
    | .gt => e :: insertEntry k v rest

/-- The entries without the one for `k`. -/
def eraseEntry (k : κ) : List (κ × ν) → List (κ × ν)
  | [] => []
  | e :: rest =>
    match compare k e.1 with
    | .lt => e :: rest
    | .eq => rest
    | .gt => e :: eraseEntry k rest

/-- The entries after an insertion are the new one and those there were. -/
theorem mem_of_mem_insertEntry {k : κ} {v : ν} {l : List (κ × ν)} {e : κ × ν}
    (h : e ∈ insertEntry k v l) : e = (k, v) ∨ e ∈ l := by
  induction l with
  | nil => simpa [insertEntry] using h
  | cons a rest ih =>
    simp only [insertEntry] at h
    split at h
    · simpa using h
    · rcases List.mem_cons.1 h with h | h
      · exact .inl h
      · exact .inr (List.mem_cons_of_mem _ h)
    · rcases List.mem_cons.1 h with h | h
      · exact .inr (h ▸ List.mem_cons_self)
      · exact (ih h).imp_right (List.mem_cons_of_mem _)

/-- The entries after an erasure are some of those there were. -/
theorem mem_of_mem_eraseEntry {k : κ} {l : List (κ × ν)} {e : κ × ν}
    (h : e ∈ eraseEntry k l) : e ∈ l := by
  induction l with
  | nil => simp [eraseEntry] at h
  | cons a rest ih =>
    simp only [eraseEntry] at h
    split at h
    · exact h
    · exact List.mem_cons_of_mem _ h
    · rcases List.mem_cons.1 h with h | h
      · exact h ▸ List.mem_cons_self
      · exact List.mem_cons_of_mem _ (ih h)

/-- No key is before itself. -/
theorem not_lt_self [Std.ReflOrd κ] (k : κ) : compare k k ≠ .lt := by
  rw [show compare k k = .eq from Std.ReflCmp.compare_self]
  nofun

section Order

variable [Std.TransOrd κ] [Std.LawfulEqOrd κ]

/-- An insertion keeps the entries sorted. -/
theorem sorted_insertEntry {k : κ} {v : ν} {l : List (κ × ν)}
    (h : l.Pairwise fun a b => compare a.1 b.1 = .lt) :
    (insertEntry k v l).Pairwise fun a b => compare a.1 b.1 = .lt := by
  induction l with
  | nil => simp [insertEntry]
  | cons a rest ih =>
    obtain ⟨ha, hrest⟩ := List.pairwise_cons.1 h
    simp only [insertEntry]
    split
    next hk =>
      refine List.pairwise_cons.2 ⟨fun e he => ?_, h⟩
      rcases List.mem_cons.1 he with rfl | he
      · exact hk
      · exact Std.TransCmp.lt_trans hk (ha e he)
    next hk =>
      obtain rfl := Std.LawfulEqOrd.eq_of_compare hk
      exact List.pairwise_cons.2 ⟨ha, hrest⟩
    next hk =>
      refine List.pairwise_cons.2 ⟨fun e he => ?_, ih hrest⟩
      rcases mem_of_mem_insertEntry he with rfl | he
      · exact Std.OrientedCmp.lt_of_gt hk
      · exact ha e he

omit [Std.TransOrd κ] [Std.LawfulEqOrd κ] in
/-- An erasure keeps the entries sorted. -/
theorem sorted_eraseEntry {k : κ} {l : List (κ × ν)}
    (h : l.Pairwise fun a b => compare a.1 b.1 = .lt) :
    (eraseEntry k l).Pairwise fun a b => compare a.1 b.1 = .lt := by
  induction l with
  | nil => simp [eraseEntry]
  | cons a rest ih =>
    obtain ⟨ha, hrest⟩ := List.pairwise_cons.1 h
    simp only [eraseEntry]
    split
    · exact h
    · exact hrest
    · exact List.pairwise_cons.2 ⟨fun e he => ha e (mem_of_mem_eraseEntry he), ih hrest⟩

omit [Std.TransOrd κ] [Std.LawfulEqOrd κ] in
/-- A key before all others is not found. -/
theorem lookup_eq_none_of_lt {k : κ} {l : List (κ × ν)}
    (h : ∀ e ∈ l, compare k e.1 = .lt) : lookup k l = none := by
  cases l with
  | nil => rfl
  | cons a rest => simp [lookup, h a List.mem_cons_self]

/-- In sorted entries a key is found with the value it has. -/
theorem mem_iff_lookup {k : κ} {v : ν} {l : List (κ × ν)}
    (h : l.Pairwise fun a b => compare a.1 b.1 = .lt) : (k, v) ∈ l ↔ lookup k l = some v := by
  induction l with
  | nil => simp [lookup]
  | cons a rest ih =>
    obtain ⟨ha, hrest⟩ := List.pairwise_cons.1 h
    simp only [lookup, List.mem_cons]
    split
    next hk =>
      simp only [reduceCtorEq, iff_false, not_or]
      refine ⟨?_, fun hm => ?_⟩
      · rintro rfl
        exact not_lt_self k hk
      · exact not_lt_self k (Std.TransCmp.lt_trans hk (ha _ hm))
    next hk =>
      obtain rfl := Std.LawfulEqOrd.eq_of_compare hk
      simp only [Option.some.injEq]
      constructor
      · rintro (e | hm)
        · exact e ▸ rfl
        · exact absurd (ha _ hm) (not_lt_self a.1)
      · rintro rfl
        exact .inl rfl
    next hk =>
      rw [ih hrest]
      refine or_iff_right ?_
      rintro rfl
      rw [show compare k k = .eq from Std.ReflCmp.compare_self] at hk
      contradiction

omit [Std.TransOrd κ] in
/-- A key is found with the value just inserted. -/
theorem lookup_insertEntry_self {k : κ} {v : ν} {l : List (κ × ν)} :
    lookup k (insertEntry k v l) = some v := by
  induction l with
  | nil => simp [insertEntry, lookup, Std.ReflCmp.compare_self]
  | cons a rest ih =>
    simp only [insertEntry]
    split
    · simp [lookup, Std.ReflCmp.compare_self]
    · simp [lookup, Std.ReflCmp.compare_self]
    next hk => simp [lookup, hk, ih]

/-- An insertion does not change what is found at other keys. -/
theorem lookup_insertEntry_of_ne {k k' : κ} {v : ν} {l : List (κ × ν)} (hne : k' ≠ k)
    (h : l.Pairwise fun a b => compare a.1 b.1 = .lt) :
    lookup k' (insertEntry k v l) = lookup k' l := by
  have hself : compare k' k ≠ .eq := fun e => hne (Std.LawfulEqOrd.eq_of_compare e)
  induction l with
  | nil =>
    simp only [insertEntry, lookup]
    split <;> simp_all
  | cons a rest ih =>
    obtain ⟨ha, hrest⟩ := List.pairwise_cons.1 h
    simp only [insertEntry]
    split
    next hk =>
      conv => lhs; unfold lookup
      dsimp only
      split
      next hk' => rw [lookup_eq_none_of_lt]
                  intro e he
                  rcases List.mem_cons.1 he with rfl | he
                  · exact Std.TransCmp.lt_trans hk' hk
                  · exact Std.TransCmp.lt_trans hk' (Std.TransCmp.lt_trans hk (ha e he))
      next hk' => exact absurd hk' hself
      next => rfl
    next hk =>
      obtain rfl := Std.LawfulEqOrd.eq_of_compare hk
      simp only [lookup]
      split <;> simp_all
    next hk => simp only [lookup, ih hrest]

omit [Std.TransOrd κ] in
/-- A key that was erased is not found. -/
theorem lookup_eraseEntry_self {k : κ} {l : List (κ × ν)}
    (h : l.Pairwise fun a b => compare a.1 b.1 = .lt) : lookup k (eraseEntry k l) = none := by
  induction l with
  | nil => rfl
  | cons a rest ih =>
    obtain ⟨ha, hrest⟩ := List.pairwise_cons.1 h
    simp only [eraseEntry]
    split
    next hk => simp [lookup, hk]
    next hk =>
      obtain rfl := Std.LawfulEqOrd.eq_of_compare hk
      exact lookup_eq_none_of_lt ha
    next hk => simp [lookup, hk, ih hrest]

/-- An erasure does not change what is found at other keys. -/
theorem lookup_eraseEntry_of_ne {k k' : κ} {l : List (κ × ν)} (hne : k' ≠ k)
    (h : l.Pairwise fun a b => compare a.1 b.1 = .lt) :
    lookup k' (eraseEntry k l) = lookup k' l := by
  induction l with
  | nil => rfl
  | cons a rest ih =>
    obtain ⟨ha, hrest⟩ := List.pairwise_cons.1 h
    simp only [eraseEntry]
    split
    · rfl
    next hk =>
      obtain rfl := Std.LawfulEqOrd.eq_of_compare hk
      simp only [lookup]
      split
      next hk' => exact lookup_eq_none_of_lt fun e he => Std.TransCmp.lt_trans hk' (ha e he)
      next hk' => exact absurd (Std.LawfulEqOrd.eq_of_compare hk') hne
      next => rfl
    next hk => simp only [lookup, ih hrest]

end Order

/-! ### The map -/

/-- The map without entries. -/
def empty : SortedMap κ ν := ⟨[], .nil⟩

/-- The value at a key. -/
def get? (m : SortedMap κ ν) (k : κ) : Option ν := lookup k m.toList

/-- Whether a key has a value. -/
def contains (m : SortedMap κ ν) (k : κ) : Bool := (m.get? k).isSome

/-- The number of entries. -/
def size (m : SortedMap κ ν) : Nat := m.toList.length

/-- The keys, in order. -/
def keys (m : SortedMap κ ν) : List κ := m.toList.map (·.1)

/-- The entries that satisfy a test. -/
def filter (p : κ → ν → Bool) (m : SortedMap κ ν) : SortedMap κ ν :=
  ⟨m.toList.filter fun e => p e.1 e.2, m.sorted.filter _⟩

section Order

variable [Std.TransOrd κ] [Std.LawfulEqOrd κ]

/-- The map with a value put at a key, in place of the old one if there is one. -/
def insert (m : SortedMap κ ν) (k : κ) (v : ν) : SortedMap κ ν :=
  ⟨insertEntry k v m.toList, sorted_insertEntry m.sorted⟩

/-- The map without a key. -/
def erase (m : SortedMap κ ν) (k : κ) : SortedMap κ ν :=
  ⟨eraseEntry k m.toList, sorted_eraseEntry m.sorted⟩

/-- The map of some entries; of two with one key the later counts. -/
def ofList (entries : List (κ × ν)) : SortedMap κ ν :=
  entries.foldl (fun m e => m.insert e.1 e.2) empty

omit [Std.TransOrd κ] [Std.LawfulEqOrd κ] in
/-- Nothing is found in an empty map. -/
@[simp] theorem get?_empty (k : κ) : (empty : SortedMap κ ν).get? k = none := rfl

/-- A key has the value just inserted. -/
@[simp] theorem get?_insert_self (m : SortedMap κ ν) (k : κ) (v : ν) :
    (m.insert k v).get? k = some v :=
  lookup_insertEntry_self

/-- An insertion does not change the values of other keys. -/
theorem get?_insert_of_ne (m : SortedMap κ ν) {k k' : κ} (v : ν) (h : k' ≠ k) :
    (m.insert k v).get? k' = m.get? k' :=
  lookup_insertEntry_of_ne h m.sorted

omit [Std.TransOrd κ] in
/-- A key that was erased has no value. -/
@[simp] theorem get?_erase_self (m : SortedMap κ ν) (k : κ) : (m.erase k).get? k = none :=
  lookup_eraseEntry_self m.sorted

/-- An erasure does not change the values of other keys. -/
theorem get?_erase_of_ne (m : SortedMap κ ν) {k k' : κ} (h : k' ≠ k) :
    (m.erase k).get? k' = m.get? k' :=
  lookup_eraseEntry_of_ne h m.sorted

/-- The entries are exactly the look-ups that succeed. -/
theorem mem_toList_iff {m : SortedMap κ ν} {k : κ} {v : ν} :
    (k, v) ∈ m.toList ↔ m.get? k = some v :=
  mem_iff_lookup m.sorted

/-- Look-ups pass through a filter. -/
theorem get?_filter (m : SortedMap κ ν) (p : κ → ν → Bool) (k : κ) :
    (m.filter p).get? k = (m.get? k).filter (p k) := by
  apply Option.ext
  intro v
  rw [← mem_toList_iff, Option.filter_eq_some_iff, ← mem_toList_iff]
  simp [filter]

/-- **Look-ups determine the map.** -/
theorem ext_get? {m m' : SortedMap κ ν} (h : ∀ k, m.get? k = m'.get? k) : m = m' := by
  have nodup : ∀ {l : List (κ × ν)}, l.Pairwise (fun a b => compare a.1 b.1 = .lt) → l.Nodup :=
    fun hl => hl.imp fun {a b} (hab : compare a.1 b.1 = .lt) (e : a = b) =>
      not_lt_self b.1 (e ▸ hab)
  obtain ⟨l, hl⟩ := m
  obtain ⟨l', hl'⟩ := m'
  congr
  have antisymm : ∀ a b : κ × ν, a ∈ l → b ∈ l' →
      compare a.1 b.1 = .lt → compare b.1 a.1 = .lt → a = b :=
    fun a b _ _ hab hba => absurd (Std.TransCmp.lt_trans hab hba) (not_lt_self a.1)
  refine List.Perm.eq_of_pairwise antisymm hl hl' ?_
  refine (List.perm_ext_iff_of_nodup (nodup hl) (nodup hl')).2 fun e => ?_
  rw [mem_iff_lookup hl, mem_iff_lookup hl']
  exact iff_of_eq (congrArg (· = some e.2) (h e.1))

end Order

end SortedMap

end ReferralForest

import Mathlib.Tactic
import ReferralForest.SortedMap

/-!
# Totals over Sorted Maps

Sums and counts over the entries of a map, and maps laid over one another entry by entry. Everything
that is later recomputed from the whole forest is such a sum, and everything that changes one record
moves it by one summand.

## Main statements

* `total_insert` — writing a key moves a total by the new summand less the old one.
* `count_insert` — the same for counts.
* `total_le_total`, `count_le_count_of_map` — totals and counts over two maps compare entry by entry.
* `total_eq_of_map`, `count_eq_of_map` — they agree if the entries agree in what they look at.
* `exists_get?_eq` — a map with given answers.
* `get?_foldl` — a map laid over another one answers for its own keys.
-/

namespace ReferralForest.SortedMap

variable {κ ν μ : Type} [Ord κ]

/-- The sum of a measure over the entries. -/
def total (m : SortedMap κ ν) (f : κ → ν → Nat) : Nat :=
  (m.toList.map fun e => f e.1 e.2).sum

/-- The number of entries that satisfy a test. -/
def count (m : SortedMap κ ν) (p : κ → ν → Bool) : Nat :=
  m.toList.countP fun e => p e.1 e.2

/-- A count is a total of ones. -/
theorem count_eq_total (m : SortedMap κ ν) (p : κ → ν → Bool) :
    m.count p = m.total fun k v => if p k v then 1 else 0 := by
  rw [count, total]
  induction m.toList with
  | nil => rfl
  | cons e rest ih =>
      rw [List.countP_cons, List.map_cons, List.sum_cons, ih, Nat.add_comm]

section Order

variable [Std.TransOrd κ] [Std.LawfulEqOrd κ]

/-- Totals agree when the measures agree on the entries. -/
theorem total_congr {m : SortedMap κ ν} {f g : κ → ν → Nat}
    (h : ∀ k v, m.get? k = some v → f k v = g k v) : m.total f = m.total g := by
  rw [total]
  refine congrArg List.sum (List.map_congr_left ?_)
  rintro ⟨k, v⟩ he
  exact h k v (mem_toList_iff.mp he)

/-- Counts agree when the tests agree on the entries. -/
theorem count_congr {m : SortedMap κ ν} {p q : κ → ν → Bool}
    (h : ∀ k v, m.get? k = some v → p k v = q k v) : m.count p = m.count q := by
  rw [count_eq_total, count_eq_total]
  exact total_congr fun k v hv => by rw [h k v hv]

/-- A test that fails for all entries counts none. -/
theorem count_eq_zero {m : SortedMap κ ν} {p : κ → ν → Bool}
    (h : ∀ k v, m.get? k = some v → p k v = false) : m.count p = 0 := by
  refine List.countP_eq_zero.mpr ?_
  rintro ⟨k, v⟩ he
  rw [h k v (mem_toList_iff.mp he), Bool.not_eq_true]

omit [Std.TransOrd κ] [Std.LawfulEqOrd κ] in
/-- A stronger test counts no more. -/
theorem count_le_count {m : SortedMap κ ν} {p q : κ → ν → Bool}
    (h : ∀ k v, p k v → q k v) : m.count p ≤ m.count q :=
  List.countP_mono_left fun e _ => h e.1 e.2

/-- **Writing a key** moves a total by the new summand less the old one. -/
theorem total_insert (m : SortedMap κ ν) (k : κ) (v : ν) (f : κ → ν → Nat) :
    (m.insert k v).total f + ((m.get? k).map (f k)).getD 0 = m.total f + f k v := by
  obtain ⟨l, hl⟩ := m
  simp only [total, insert, get?]
  induction l with
  | nil => simp [insertEntry, lookup]
  | cons e rest ih =>
      obtain ⟨he, hrest⟩ := List.pairwise_cons.mp hl
      simp only [insertEntry, lookup]
      split
      next hk => simp; omega
      next hk =>
          obtain rfl := Std.LawfulEqOrd.eq_of_compare hk
          simp
          omega
      next hk =>
          have := ih hrest
          simp only [List.map_cons, List.sum_cons]
          omega

/-- A measure that is zero on all entries adds up to nothing. -/
theorem total_eq_zero {m : SortedMap κ ν} {f : κ → ν → Nat}
    (h : ∀ k v, m.get? k = some v → f k v = 0) : m.total f = 0 := by
  refine List.sum_eq_zero fun n hn => ?_
  obtain ⟨⟨k, v⟩, he, rfl⟩ := List.mem_map.mp hn
  exact h k v (mem_toList_iff.mp he)

omit [Std.TransOrd κ] [Std.LawfulEqOrd κ] in
/-- Totals add up. -/
theorem total_add (m : SortedMap κ ν) (f g : κ → ν → Nat) :
    (m.total fun k v => f k v + g k v) = m.total f + m.total g :=
  List.sum_map_add

/-- The total of a measure of one key's value alone. -/
theorem total_of_key [DecidableEq κ] (m : SortedMap κ ν) (k : κ) (f : ν → Nat) :
    (m.total fun k' v => if k' = k then f v else 0) = ((m.get? k).map f).getD 0 := by
  obtain ⟨l, hl⟩ := m
  simp only [total, get?]
  induction l with
  | nil => rfl
  | cons e rest ih =>
      obtain ⟨he, hrest⟩ := List.pairwise_cons.mp hl
      simp only [List.map_cons, List.sum_cons, ih hrest, lookup]
      cases hk : compare k e.1 with
      | lt =>
          have hne : e.1 ≠ k := fun h => not_lt_self k (by rwa [h] at hk)
          have hnone : lookup k rest = none :=
            lookup_eq_none_of_lt fun a ha => Std.TransCmp.lt_trans hk (he a ha)
          simp [hne, hnone]
      | eq =>
          obtain rfl := Std.LawfulEqOrd.eq_of_compare hk
          simp [lookup_eq_none_of_lt he]
      | gt =>
          have hne : e.1 ≠ k := by
            rintro rfl
            rw [show compare e.1 e.1 = .eq from Std.ReflCmp.compare_self] at hk
            contradiction
          simp [hne]

omit [Std.TransOrd κ] [Std.LawfulEqOrd κ] in
/-- No key stands twice in a map. -/
theorem nodup_keys [Std.ReflOrd κ] (m : SortedMap κ ν) : m.keys.Nodup := by
  refine List.pairwise_map.mpr (m.sorted.imp fun {a b} hab heq => ?_)
  rw [heq] at hab
  exact not_lt_self b.1 hab

/-- The keys of a map are those at which it has a value. -/
theorem mem_keys_iff {m : SortedMap κ ν} {k : κ} : k ∈ m.keys ↔ m.get? k ≠ none := by
  rw [keys, List.mem_map, Option.ne_none_iff_exists']
  constructor
  · rintro ⟨⟨k', v⟩, he, rfl⟩
    exact ⟨v, mem_toList_iff.mp he⟩
  · rintro ⟨v, hv⟩
    exact ⟨(k, v), mem_toList_iff.mpr hv, rfl⟩

/-- A list of different keys of a map is no longer than the map. -/
theorem length_le_size {m : SortedMap κ ν} {l : List κ} (distinct : l.Nodup)
    (found : ∀ k ∈ l, m.get? k ≠ none) : l.length ≤ m.size := by
  have hsub : l ⊆ m.keys := fun k hk => mem_keys_iff.mpr (found k hk)
  have hlength := (List.subperm_of_subset distinct hsub).length_le
  rwa [keys, List.length_map] at hlength

/-- A total is a sum over the keys. -/
theorem total_eq_sum_keys (m : SortedMap κ ν) (f : κ → ν → Nat) :
    m.total f = (m.keys.map fun k => ((m.get? k).map (f k)).getD 0).sum := by
  rw [total, keys, List.map_map]
  refine congrArg List.sum (List.map_congr_left ?_)
  rintro ⟨k, v⟩ he
  rw [Function.comp_apply, mem_toList_iff.mp he]
  rfl

/-- **Totals over two maps compare** if the entries of the one compare with those of the other. -/
theorem total_le_total {m : SortedMap κ ν} {m' : SortedMap κ μ} {f : κ → ν → Nat} {g : κ → μ → Nat}
    (h : ∀ k v, m.get? k = some v → ∃ v', m'.get? k = some v' ∧ f k v ≤ g k v') :
    m.total f ≤ m'.total g := by
  classical
  rw [total_eq_sum_keys, total_eq_sum_keys, ← List.sum_toFinset _ m.nodup_keys,
    ← List.sum_toFinset _ m'.nodup_keys]
  have hkeys : m.keys.toFinset ⊆ m'.keys.toFinset := by
    intro k hk
    rw [List.mem_toFinset, mem_keys_iff, Option.ne_none_iff_exists'] at hk ⊢
    obtain ⟨v, hv⟩ := hk
    obtain ⟨v', hv', -⟩ := h k v hv
    exact ⟨v', hv'⟩
  refine (Finset.sum_le_sum fun k hk => ?_).trans
    (Finset.sum_le_sum_of_subset hkeys)
  rw [List.mem_toFinset, mem_keys_iff, Option.ne_none_iff_exists'] at hk
  obtain ⟨v, hv⟩ := hk
  obtain ⟨v', hv', hle⟩ := h k v hv
  rw [hv, hv']
  exact hle

/-- Counts over two maps compare if the entries that one counts are counted by the other. -/
theorem count_le_count_of_map {m : SortedMap κ ν} {m' : SortedMap κ μ} {p : κ → ν → Bool}
    {q : κ → μ → Bool} (h : ∀ k v, m.get? k = some v → ∃ v', m'.get? k = some v' ∧ (p k v → q k v')) :
    m.count p ≤ m'.count q := by
  rw [count_eq_total, count_eq_total]
  refine total_le_total fun k v hv => ?_
  obtain ⟨v', hv', hle⟩ := h k v hv
  refine ⟨v', hv', ?_⟩
  split_ifs <;> simp_all

/-- **Totals over two maps agree** if they measure something in which the entries of the maps agree. -/
theorem total_eq_of_map {X : Type} {m : SortedMap κ ν} {m' : SortedMap κ μ} {f : ν → X} {g : μ → X}
    (same : ∀ k, (m'.get? k).map g = (m.get? k).map f) (measure : κ → X → Nat) :
    (m'.total fun k v => measure k (g v)) = m.total fun k v => measure k (f v) := by
  refine Nat.le_antisymm (total_le_total fun k v hv => ?_) (total_le_total fun k v hv => ?_)
  · have hsame := same k
    rw [hv, Option.map_some] at hsame
    obtain ⟨v', hv', heq⟩ := Option.map_eq_some_iff.mp hsame.symm
    exact ⟨v', hv', by rw [heq]⟩
  · have hsame := same k
    rw [hv, Option.map_some] at hsame
    obtain ⟨v', hv', heq⟩ := Option.map_eq_some_iff.mp hsame
    exact ⟨v', hv', by rw [heq]⟩

/-- Counts over two maps agree if they test something in which the entries of the maps agree. -/
theorem count_eq_of_map {X : Type} {m : SortedMap κ ν} {m' : SortedMap κ μ} {f : ν → X} {g : μ → X}
    (same : ∀ k, (m'.get? k).map g = (m.get? k).map f) (test : κ → X → Bool) :
    (m'.count fun k v => test k (g v)) = m.count fun k v => test k (f v) := by
  rw [count_eq_total, count_eq_total]
  exact total_eq_of_map same fun k x => if test k x then 1 else 0

/-- Writing a key moves a count by the new entry less the old one. -/
theorem count_insert (m : SortedMap κ ν) (k : κ) (v : ν) (p : κ → ν → Bool) :
    (m.insert k v).count p + ((m.get? k).map fun u => if p k u then 1 else 0).getD 0 =
      m.count p + if p k v then 1 else 0 := by
  rw [count_eq_total, count_eq_total]
  exact total_insert m k v _

omit [Std.TransOrd κ] [Std.LawfulEqOrd κ] in
/-- No more entries are counted than there are. -/
theorem count_le_size (m : SortedMap κ ν) (p : κ → ν → Bool) : m.count p ≤ m.size :=
  List.countP_le_length

/-- Writing a key that has a value adds no entry. -/
theorem size_insert {m : SortedMap κ ν} {k : κ} {u : ν} (found : m.get? k = some u) (v : ν) :
    (m.insert k v).size = m.size := by
  have hsize : ∀ m : SortedMap κ ν, m.size = m.count fun _ _ => true := fun m => by
    rw [size, count, List.countP_true]
  have hcount := m.count_insert k v fun _ _ => true
  rw [found] at hcount
  rw [hsize, hsize]
  exact Nat.add_right_cancel hcount

/-- An insertion is found at its key, and at all others what was there. -/
theorem get?_insert (m : SortedMap κ ν) (k k' : κ) (v : ν) [Decidable (k' = k)] :
    (m.insert k v).get? k' = if k' = k then some v else m.get? k' := by
  split
  next h => rw [h, get?_insert_self]
  next h => exact get?_insert_of_ne m v h

/-- An insertion takes no value away. -/
theorem get?_insert_ne_none {m : SortedMap κ ν} {k k' : κ} {v : ν} (h : m.get? k' ≠ none) :
    (m.insert k v).get? k' ≠ none := by
  classical
  rw [get?_insert]
  split
  · exact Option.some_ne_none v
  · exact h

/-- A filter on keys keeps the entries of the keys it accepts. -/
theorem get?_filter_key (m : SortedMap κ ν) (p : κ → Bool) (k : κ) :
    (m.filter fun k _ => p k).get? k = if p k then m.get? k else none := by
  rw [get?_filter]
  cases p k <;> cases m.get? k <;> rfl

/-- Writing what is there already changes nothing. -/
theorem insert_of_get? {m : SortedMap κ ν} {k : κ} {v : ν} (h : m.get? k = some v) :
    m.insert k v = m := by
  classical
  refine ext_get? fun k' => ?_
  rw [get?_insert]
  split
  next hk => rw [hk, h]
  next => rfl

/-- Of two writes of one key the later counts. -/
theorem insert_insert (m : SortedMap κ ν) (k : κ) (v v' : ν) :
    (m.insert k v).insert k v' = m.insert k v' := by
  classical
  refine ext_get? fun k' => ?_
  simp only [get?_insert]
  split <;> rfl

/-- Two keys can be written in either order. -/
theorem insert_comm (m : SortedMap κ ν) {k k' : κ} (h : k ≠ k') (v v' : ν) :
    (m.insert k v).insert k' v' = (m.insert k' v').insert k v := by
  classical
  refine ext_get? fun c => ?_
  simp only [get?_insert]
  split_ifs with hk' hk
  · exact absurd (hk.symm.trans hk') h
  · rfl
  · rfl
  · rfl

/-- What is true of all entries stays so if it is true of the one that is written. -/
theorem forall_insert {P : κ → ν → Prop} {m : SortedMap κ ν} {k : κ} {v : ν}
    (h : ∀ k v, m.get? k = some v → P k v) (hv : P k v) :
    ∀ k' v', (m.insert k v).get? k' = some v' → P k' v' := by
  classical
  intro k' v' found
  rw [get?_insert] at found
  split at found
  next hk =>
      obtain rfl := Option.some.inj found
      exact hk ▸ hv
  next => exact h k' v' found

/-- A sorted list with the entries of a map is its list of entries. -/
theorem toList_eq_of_mem_iff {m : SortedMap κ ν} {l : List (κ × ν)}
    (sorted : l.Pairwise fun a b => compare a.1 b.1 = .lt)
    (h : ∀ k v, (k, v) ∈ l ↔ m.get? k = some v) : m.toList = l := by
  have heq : m = ⟨l, sorted⟩ := by
    refine ext_get? fun k => Option.ext fun v => ?_
    rw [← h, ← mem_toList_iff]
  rw [heq]

/-- **A map with given answers**, of which finitely many are values. -/
theorem exists_get?_eq (f : κ → Option ν) (keys : List κ) (support : ∀ k, f k ≠ none → k ∈ keys) :
    ∃ m : SortedMap κ ν, ∀ k, m.get? k = f k := by
  classical
  have hpart : ∀ l : List κ, ∃ m : SortedMap κ ν, ∀ k, m.get? k = if k ∈ l then f k else none := by
    intro l
    induction l with
    | nil => exact ⟨.empty, fun k => get?_empty k⟩
    | cons a l ih =>
        obtain ⟨m, hm⟩ := ih
        cases ha : f a with
        | none =>
            refine ⟨m, fun k => ?_⟩
            simp only [hm, List.mem_cons]
            by_cases hk : k = a
            · simp [hk, ha]
            · simp [hk]
        | some v =>
            refine ⟨m.insert a v, fun k => ?_⟩
            simp only [get?_insert, hm, List.mem_cons]
            by_cases hk : k = a
            · simp [hk, ha]
            · simp [hk]
  obtain ⟨m, hm⟩ := hpart keys
  refine ⟨m, fun k => ?_⟩
  rw [hm]
  by_cases hk : k ∈ keys
  · rw [if_pos hk]
  · rw [if_neg hk, not_not.mp fun hne => hk (support k hne)]

/-- **Laying one map over another.** A step that decides one key, folded over the entries of a map,
answers for the keys of that map and leaves the others alone. -/
theorem get?_foldl (m : SortedMap κ ν) {step : SortedMap κ μ → κ × ν → SortedMap κ μ}
    {value : ν → Option μ} (self : ∀ b e, (step b e).get? e.1 = value e.2)
    (other : ∀ b e k, k ≠ e.1 → (step b e).get? k = b.get? k) (base : SortedMap κ μ) (k : κ) :
    (m.toList.foldl step base).get? k = ((m.get? k).map value).getD (base.get? k) := by
  obtain ⟨l, hl⟩ := m
  simp only [get?]
  induction l generalizing base with
  | nil => rfl
  | cons e rest ih =>
      obtain ⟨he, hrest⟩ := List.pairwise_cons.mp hl
      simp only [List.foldl_cons, lookup]
      rw [ih (step base e) hrest]
      split
      next hk =>
          have hne : k ≠ e.1 := fun h => not_lt_self e.1 (h ▸ hk)
          rw [lookup_eq_none_of_lt fun a ha => Std.TransCmp.lt_trans hk (he a ha)]
          exact other base e k hne
      next hk =>
          obtain rfl := Std.LawfulEqOrd.eq_of_compare hk
          rw [lookup_eq_none_of_lt he]
          exact self base e
      next hk =>
          have hne : k ≠ e.1 := by
            rintro rfl
            rw [show compare e.1 e.1 = .eq from Std.ReflCmp.compare_self] at hk
            contradiction
          rw [show lookup k (step base e).toList = lookup k base.toList from other base e k hne]

/-- Writing the entries of a map one by one lays it over another. -/
theorem get?_foldl_insert (m base : SortedMap κ ν) (k : κ) :
    (m.toList.foldl (fun b e => b.insert e.1 e.2) base).get? k = (m.get? k).or (base.get? k) := by
  have self : ∀ (b : SortedMap κ ν) (e : κ × ν), (b.insert e.1 e.2).get? e.1 = some e.2 :=
    fun b e => b.get?_insert_self e.1 e.2
  have other : ∀ (b : SortedMap κ ν) (e : κ × ν) (k : κ), k ≠ e.1 →
      (b.insert e.1 e.2).get? k = b.get? k := fun b e k hk => b.get?_insert_of_ne e.2 hk
  rw [get?_foldl m self other]
  cases m.get? k <;> rfl

/-- A key that is not among the entries written is as it was. -/
theorem get?_foldl_insert_of_not_mem {l : List (κ × ν)} {m : SortedMap κ ν} {k : κ} (h : k ∉ l.map Prod.fst) :
    (l.foldl (fun m e => m.insert e.1 e.2) m).get? k = m.get? k := by
  induction l generalizing m with
  | nil => rfl
  | cons e rest ih =>
      obtain ⟨hne, hrest⟩ := List.ne_and_not_mem_of_not_mem_cons h
      exact (ih hrest).trans (m.get?_insert_of_ne e.2 hne)

/-- Entries with different keys are all found when they have been written. -/
theorem get?_foldl_insert_of_mem {l : List (κ × ν)} {m : SortedMap κ ν}
    (distinct : (l.map Prod.fst).Nodup) {e : κ × ν} (he : e ∈ l) :
    (l.foldl (fun m e => m.insert e.1 e.2) m).get? e.1 = some e.2 := by
  induction l generalizing m with
  | nil => contradiction
  | cons e' rest ih =>
      obtain ⟨hnew, hrest⟩ := List.nodup_cons.mp distinct
      obtain rfl | he := List.mem_cons.mp he
      · exact (get?_foldl_insert_of_not_mem hnew).trans (m.get?_insert_self e.1 e.2)
      · exact ih hrest he

end Order

end ReferralForest.SortedMap

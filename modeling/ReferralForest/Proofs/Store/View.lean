import ReferralForest.Proofs.SortedMap.Totals
import ReferralForest.Store.Basic

/-!
# Stores through their View

A store that admits every call answers as the plain map it stands for, however many branches are open:
each call is one equation about `Store.view`. A branch opened over a store leaves that store alone
until it is closed.

## Main statements

* `get_eq_view`, `write_view`, `range_eq_view` — the calls, read off the view.
* `view_branch`, `commit_view` — opening and committing a branch keep the view.
* `Above.discard_eq` — dropping a branch gives back the store it was opened over.
-/

namespace ReferralForest

namespace KeyRange

/-- Nothing lies in an empty range. -/
theorem not_contains_of_isEmpty {range : KeyRange}
    (h : range.isEmpty = true) (k : Key) : range.contains k = false := by
  obtain ⟨start, stop⟩ := range
  cases stop with
  | none => simp [KeyRange.isEmpty] at h
  | some stop =>
      simp only [KeyRange.isEmpty] at h
      rw [KeyRange.contains, Bool.and_eq_false_iff]
      by_contra hc
      simp only [not_or, Bool.not_eq_false, Ordering.isLT_iff_eq_lt] at hc
      have hlt : compare start stop = .lt := Std.TransCmp.lt_of_isLE_of_lt hc.1 hc.2
      rw [Std.OrientedOrd.eq_swap, hlt] at h
      simp at h

end KeyRange

namespace Store

/-- A store that admits every call. -/
def Unlimited (store : Store) : Prop := store.base.policy = .free

/-- A store without branches that admits every call. -/
def ofEntries (m : SortedMap Key Value) : Store := ⟨⟨m, .free⟩, []⟩

/-! ### Writes and overlays -/

/-- A write decides its own key. -/
theorem get?_put (m : SortedMap Key Value) (w : Write) (k : Key) :
    (put m w).get? k = if k = w.1 then w.2 else m.get? k := by
  obtain ⟨key, value⟩ := w
  cases value with
  | some v => exact SortedMap.get?_insert m key k v
  | none =>
      simp only [put]
      split
      next h => rw [h, SortedMap.get?_erase_self]
      next h => exact m.get?_erase_of_ne h

/-- What is seen through buffered writes. -/
theorem Overlay.get?_over (o : Overlay) (m : SortedMap Key Value) (k : Key) :
    (o.over m).get? k = (o.get? k).getD (m.get? k) := by
  have self : ∀ (b : SortedMap Key Value) (e : Key × Option Value),
      (put b e).get? e.1 = id e.2 := by
    intro b e
    rw [get?_put, if_pos rfl, id]
  have other : ∀ (b : SortedMap Key Value) (e : Key × Option Value) (k : Key), k ≠ e.1 →
      (put b e).get? k = b.get? k := by
    intro b e k hk
    rw [get?_put, if_neg hk]
  rw [Overlay.over, SortedMap.get?_foldl o self other, Option.map_id, id]

/-- A branch that buffers one more write. -/
theorem Overlay.over_insert (o : Overlay) (w : Write) (m : SortedMap Key Value) :
    Overlay.over (o.insert w.1 w.2) m = put (o.over m) w := by
  refine SortedMap.ext_get? fun k => ?_
  rw [get?_put, get?_over, get?_over, SortedMap.get?_insert]
  split <;> rfl

/-- A branch that buffers a batch of writes. -/
theorem Overlay.over_foldl (writes : List Write) (o : Overlay) (m : SortedMap Key Value) :
    Overlay.over (writes.foldl (fun o w => o.insert w.1 w.2) o) m = writes.foldl put (o.over m) := by
  induction writes generalizing o with
  | nil => rfl
  | cons w rest ih => rw [List.foldl_cons, List.foldl_cons, ih, over_insert]

/-- Reading the view is looking through the branches, innermost first, and then at the bottom. -/
theorem get?_view (store : Store) (k : Key) :
    store.view.get? k =
      (store.branches.findSome? (·.get? k)).getD (store.base.entries.get? k) := by
  rw [view]
  induction store.branches with
  | nil => rfl
  | cons top below ih =>
      rw [List.foldr_cons, Overlay.get?_over, List.findSome?_cons, ih]
      cases top.get? k <;> rfl

/-! ### The calls -/

/-- **Reading** gives the value in the view. -/
theorem get_eq_view {store : Store} (free : store.Unlimited) (k : Key) :
    store.get k = (.ok (store.view.get? k), store) := by
  obtain ⟨⟨entries, policy⟩, branches⟩ := store
  obtain rfl : policy = .free := free
  rw [get?_view, get]
  cases branches.findSome? (·.get? k) <;> rfl

/-- **Writing** changes the view as it changes a map. -/
theorem write_view {store : Store} (free : store.Unlimited) (w : Write) :
    ∃ store', store.write w = (.ok (), store') ∧ store'.Unlimited ∧
      store'.view = put store.view w := by
  obtain ⟨⟨entries, policy⟩, branches⟩ := store
  obtain rfl : policy = .free := free
  cases branches with
  | nil => exact ⟨⟨⟨put entries w, .free⟩, []⟩, rfl, rfl, rfl⟩
  | cons top below =>
      exact ⟨⟨⟨entries, .free⟩, top.insert w.1 w.2 :: below⟩, rfl, rfl,
        top.over_insert w _⟩

/-- The branches above a range of the bottom, cut down to that range. -/
theorem get?_foldr_within (range : KeyRange) (branches : List Overlay)
    (entries : SortedMap Key Value) (k : Key) :
    (branches.foldr (fun o m => Overlay.over (o.filter fun key _ => range.contains key) m)
        (entries.filter fun key _ => range.contains key)).get? k =
      if range.contains k then (branches.foldr Overlay.over entries).get? k else none := by
  induction branches with
  | nil =>
      exact SortedMap.get?_filter_key entries range.contains k
  | cons top below ih =>
      rw [List.foldr_cons, List.foldr_cons, Overlay.get?_over, Overlay.get?_over,
        SortedMap.get?_filter_key, ih]
      split <;> rfl

/-- **Listing** gives the part of the view in the range, in key order. -/
theorem range_eq_view {store : Store} (free : store.Unlimited) (range : KeyRange) :
    store.range range = (.ok (store.view.filter fun k _ => range.contains k).toList, store) := by
  obtain ⟨⟨entries, policy⟩, branches⟩ := store
  obtain rfl : policy = .free := free
  rw [Store.range]
  split
  next h =>
      have hempty : range.isEmpty = true := by simp at h; exact h.2
      simp [SortedMap.filter, KeyRange.not_contains_of_isEmpty hempty]
  next h =>
      simp only [onBase, Base.range, Base.access, Policy.admit]
      refine congrArg (fun m : SortedMap Key Value => (Except.ok m.toList, _)) ?_
      refine SortedMap.ext_get? fun k => ?_
      rw [get?_foldr_within, SortedMap.get?_filter_key, view]

/-- Writes carried out one by one at the bottom. -/
theorem Base.writeEach_free (writes : List Write) (entries : SortedMap Key Value) :
    Base.writeEach writes ⟨entries, .free⟩ = (.ok (), ⟨writes.foldl put entries, .free⟩) := by
  induction writes generalizing entries with
  | nil => rfl
  | cons w rest ih => exact ih (put entries w)

/-- A batch changes the view as its writes do, one after another. -/
theorem apply_view {store : Store} (free : store.Unlimited) (writes : List Write) :
    ∃ store', store.apply writes = (.ok (), store') ∧ store'.Unlimited ∧
      store'.view = writes.foldl put store.view := by
  obtain ⟨⟨entries, policy⟩, branches⟩ := store
  obtain rfl : policy = .free := free
  cases branches with
  | nil =>
      refine ⟨⟨⟨writes.foldl put entries, .free⟩, []⟩, ?_, rfl, rfl⟩
      simp [apply, onBase, Base.apply, Base.writeEach_free]
  | cons top below =>
      let top' : Overlay := writes.foldl (fun o w => o.insert w.1 w.2) top
      exact ⟨⟨⟨entries, .free⟩, top' :: below⟩, rfl, rfl, Overlay.over_foldl writes top _⟩

/-! ### Branches -/

/-- Opening a branch shows what was there. -/
theorem view_branch (store : Store) : store.branch.view = store.view := by
  refine SortedMap.ext_get? fun k => ?_
  simp [view, branch, Overlay.get?_over]

/-- **Committing** keeps the view. -/
theorem commit_view {store : Store} (free : store.Unlimited) :
    ∃ store', store.commit = (.ok (), store') ∧ store'.Unlimited ∧ store'.view = store.view := by
  obtain ⟨base, branches⟩ := store
  cases branches with
  | nil => exact ⟨_, rfl, free, rfl⟩
  | cons top below =>
      have free' : (⟨base, below⟩ : Store).Unlimited := free
      obtain ⟨store', happly, hfree, hview⟩ := apply_view free' top.toList
      exact ⟨store', happly, hfree, hview⟩

/-- `store` is `below` with one more branch open. -/
def Above (below store : Store) : Prop :=
  ∃ top, store = ⟨below.base, top :: below.branches⟩

/-- A branch just opened lies above the store it was opened over. -/
theorem above_branch (below : Store) : Above below below.branch := ⟨.empty, rfl⟩

/-- Writing touches only the innermost branch. -/
theorem Above.write {below store : Store} (h : Above below store) (w : Write) :
    Above below (store.write w).2 := by
  obtain ⟨top, rfl⟩ := h
  exact ⟨top.insert w.1 w.2, rfl⟩

/-- A store above one that admits every call admits every call. -/
theorem Above.unlimited {below store : Store} (h : Above below store) (free : below.Unlimited) :
    store.Unlimited := by
  obtain ⟨top, rfl⟩ := h
  exact free

/-- **Dropping a branch** gives back the store it was opened over. -/
theorem Above.discard_eq {below store : Store} (h : Above below store) :
    store.discard = below := by
  obtain ⟨top, rfl⟩ := h
  rfl

end Store

end ReferralForest

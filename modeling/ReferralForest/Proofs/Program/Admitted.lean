import ReferralForest.Proofs.Program.Run

/-!
# Admitted Calls

A store may limit the calls it admits, by their number or by the size of their keys. What a call does once
it is admitted is not a matter of the limit: it answers from the view and changes the view as on any other
store. So of a run that succeeds it can be said what it has read and written without saying anything about
the store it was made on. Calls that write nothing leave the view alone even when they are refused.

## Main statements

* `Store.get_cases`, `Store.range_cases`, `Store.view_of_write_eq_ok` — what an admitted call does.
* `World.run_get_eq_ok`, `World.run_write_eq_ok`, `World.run_range_eq_ok` — the same of programs.
* `World.view_run_of_silent` — silent programs leave the view of every store alone.
-/

namespace ReferralForest

namespace Store

variable {store store' : Store} {α : Type}

/-- **A call** is admitted and does what it does to the entries, or it is refused and does nothing. -/
theorem Base.access_cases (call : Access) (run : SortedMap Key Value → α × SortedMap Key Value)
    (base : Base) :
    (∃ policy, access call run base = (.ok (run base.entries).1, ⟨(run base.entries).2, policy⟩)) ∨
      ∃ fault policy, access call run base = (.error fault, ⟨base.entries, policy⟩) := by
  rw [access]
  cases hadmit : base.policy.admit call with
  | mk verdict policy =>
      cases verdict with
      | ok => exact .inl ⟨policy, rfl⟩
      | error fault => exact .inr ⟨fault, policy, rfl⟩

/-- **Reading** never changes the view, and gives the value in it if it is admitted. -/
theorem get_cases (store : Store) (k : Key) :
    (store.get k).2.view = store.view ∧
      ((store.get k).1 = .ok (store.view.get? k) ∨ ∃ fault, (store.get k).1 = .error fault) := by
  rw [get?_view, get]
  cases store.branches.findSome? (·.get? k) with
  | some buffered => exact ⟨rfl, .inl rfl⟩
  | none =>
      obtain ⟨policy, hcall⟩ | ⟨fault, policy, hcall⟩ :=
        Base.access_cases (.read k) (fun m => (m.get? k, m)) store.base
      · simp only [onBase, Base.get, hcall]
        exact ⟨rfl, .inl rfl⟩
      · simp only [onBase, Base.get, hcall]
        exact ⟨rfl, .inr ⟨fault, rfl⟩⟩

/-- **Listing** never changes the view, and gives the part of it in the range if it is admitted. The same
store without a limit gives the listing its form. -/
theorem range_cases (store : Store) (range : KeyRange) :
    (store.range range).2.view = store.view ∧
      ((store.range range).1 = .ok (store.view.filter fun k _ => range.contains k).toList ∨
        ∃ fault, (store.range range).1 = .error fault) := by
  let unlimited : Store := ⟨⟨store.base.entries, .free⟩, store.branches⟩
  have hunlimited : unlimited.Unlimited := rfl
  have hfree : unlimited.range range =
      (.ok (store.view.filter fun k _ => range.contains k).toList, unlimited) :=
    range_eq_view hunlimited range
  rw [Store.range] at hfree ⊢
  split
  next hempty =>
      rw [if_pos hempty] at hfree
      exact ⟨rfl, .inl (congrArg Prod.fst hfree)⟩
  next hempty =>
      rw [if_neg hempty] at hfree
      obtain ⟨policy, hcall⟩ | ⟨fault, policy, hcall⟩ := Base.access_cases .list
        (fun m => (m.filter fun key _ => range.contains key, m)) store.base
      · simp only [onBase, Base.range, hcall]
        exact ⟨rfl, .inl (congrArg Prod.fst hfree)⟩
      · simp only [onBase, Base.range, hcall]
        exact ⟨rfl, .inr ⟨fault, rfl⟩⟩

/-- **Writing**, admitted, changes the view as it changes a map. -/
theorem view_of_write_eq_ok {w : Write} (h : store.write w = (.ok (), store')) :
    store'.view = put store.view w := by
  obtain ⟨base, branches⟩ := store
  cases branches with
  | nil =>
      obtain ⟨policy, hcall⟩ | ⟨fault, policy, hcall⟩ :=
        Base.access_cases (.write w) (fun m => ((), put m w)) base
      · simp only [write, onBase, Base.write, hcall] at h
        obtain ⟨-, rfl⟩ := Prod.mk.inj h
        rfl
      · simp only [write, onBase, Base.write, hcall] at h
        cases congrArg Prod.fst h
  | cons top below =>
      obtain ⟨-, rfl⟩ := Prod.mk.inj h
      exact top.over_insert w _

end Store

namespace World

variable {w w' : World} {α : Type}

/-- **A key that is looked up** is looked up in the view. -/
theorem run_get_eq_ok {k : Key} {found : Option Value} (h : w.run (Program.get k) = (.ok found, w')) :
    found = w.store.view.get? k ∧ w'.batch = w.batch ∧ w'.store.view = w.store.view := by
  rw [run_get] at h
  obtain ⟨hview, hok | ⟨fault, herror⟩⟩ := w.store.get_cases k
  · rw [hok] at h
    obtain ⟨hfound, rfl⟩ := Prod.mk.inj h
    exact ⟨(Except.ok.inj hfound).symm, rfl, hview⟩
  · rw [herror] at h
    cases congrArg Prod.fst h

/-- **A range that is listed** is listed from the view. -/
theorem run_range_eq_ok {range : KeyRange} {l : List (Key × Value)}
    (h : w.run (Program.range range) = (.ok l, w')) :
    l = (w.store.view.filter fun k _ => range.contains k).toList ∧ w'.batch = w.batch ∧
      w'.store.view = w.store.view := by
  rw [run_range] at h
  obtain ⟨hview, hok | ⟨fault, herror⟩⟩ := w.store.range_cases range
  · rw [hok] at h
    obtain ⟨hl, rfl⟩ := Prod.mk.inj h
    exact ⟨(Except.ok.inj hl).symm, rfl, hview⟩
  · rw [herror] at h
    cases congrArg Prod.fst h

/-- **A write that is carried out** changes the view. -/
theorem run_write_eq_ok {e : Store.Write} (h : w.run (Program.write e) = (.ok (), w')) :
    w'.batch = w.batch ∧ w'.store.view = Store.put w.store.view e := by
  rw [run_write] at h
  cases hwrite : w.store.write e with
  | mk answer store' =>
      rw [hwrite] at h
      obtain ⟨hok, rfl⟩ := Prod.mk.inj h
      cases answer with
      | ok => exact ⟨rfl, Store.view_of_write_eq_ok hwrite⟩
      | error fault => cases hok

/-- **Silent programs** leave the view of every store alone, however they end. -/
theorem view_run_of_silent {p : Program α} (hp : p.Silent) : (w.run p).2.store.view = w.store.view := by
  refine Dialogue.Only.runWith (I := fun v : World => v.store.view = w.store.view)
    (fun call v hcall hv => ?_) hp rfl
  cases call with
  | get k => exact (v.store.get_cases k).1.trans hv
  | write write => simp [Call.writes] at hcall
  | range range => exact (v.store.range_cases range).1.trans hv
  | size | tell | batch | keep => exact hv

end World

end ReferralForest

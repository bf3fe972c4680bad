import ReferralForest.Proofs.Forest.Export

/-!
# Listings

Three listings read a range of the store and give the accounts in the order of the keys. The keys of
records end with the name of the account, so all records and the roots come in account order. The keys of
relations put the length of a referral's name before it, so the referrals of an account come with the
shorter names first, which is account order only where no shorter name belongs behind a longer one.

## Main definitions

* `AccountId.Before` — account order.
* `Store.Lists` — what the listings of a store give.

## Main statements

* `AccountId.pairwise_before_iff` — when the order of the relation keys is account order.
* `Forest.lists_after` — the listings are exact after every history, each in the order of its keys.
-/

namespace ReferralForest

/-! ### The two orders -/

namespace AccountId

/-- Account order: that of the names, bytewise. -/
def Before (c d : AccountId) : Prop := compare c d = .lt

/-- **Referrals listed with the shorter names first are in account order** just if no shorter name
belongs behind a longer one. -/
theorem pairwise_before_iff {l : List AccountId} (sorted : l.Pairwise ShorterFirst) :
    l.Pairwise Before ↔
      ∀ c ∈ l, ∀ d ∈ l, c.bytes.length < d.bytes.length → c.Before d := by
  induction sorted with
  | nil => simp
  | @cons c rest first _ ih =>
      rw [List.pairwise_cons, ih]
      constructor
      · rintro ⟨hfirst, hrest⟩ x hx y hy hlength
        obtain rfl | hx' := List.mem_cons.mp hx
        · obtain rfl | hy' := List.mem_cons.mp hy
          · exact absurd hlength (Nat.lt_irrefl _)
          · exact hfirst y hy'
        · obtain rfl | hy' := List.mem_cons.mp hy
          · obtain hlt | ⟨heq, -⟩ := first x hx' <;> omega
          · exact hrest x hx' y hy' hlength
      · intro h
        refine ⟨fun d hd => ?_, fun x hx y hy =>
          h x (List.mem_cons_of_mem _ hx) y (List.mem_cons_of_mem _ hy)⟩
        obtain hlength | ⟨-, hbefore⟩ := first d hd
        · exact h c List.mem_cons_self d (List.mem_cons_of_mem _ hd) hlength
        · exact hbefore

/-- Accounts that come in their order come once. -/
theorem nodup_of_before {l : List AccountId} (h : l.Pairwise Before) : l.Nodup := by
  refine h.imp fun {a b} hab heq => ?_
  rw [heq] at hab
  exact SortedMap.not_lt_self b hab

end AccountId

/-! ### Listings -/

/-- **The listings of a store.** All records, the roots and the referrals of an account are listed
without gaps and without repetitions: records and roots in account order, referrals with the shorter
names first. -/
structure Store.Lists (store : Store) (m : Roster) : Prop where
  /-- The records are those of the store. -/
  holds : store.Holds m
  /-- All records, in account order. -/
  records : ∃ l : List (AccountId × Record),
    (World.ofStore store).run Program.allRecords = (.ok l, World.ofStore store) ∧
      (l.map Prod.fst).Pairwise AccountId.Before ∧ ∀ a r, (a, r) ∈ l ↔ m.get? a = some r
  /-- The roots, in account order. -/
  roots : ∃ l : List AccountId,
    (World.ofStore store).run Forest.roots = (.ok l, World.ofStore store) ∧
      l.Pairwise AccountId.Before ∧ ∀ a, a ∈ l ↔ ∃ r, m.get? a = some r ∧ r.referrer = none
  /-- The referrals of an account, shorter names first. They are in account order just if no shorter name
  belongs behind a longer one. -/
  children : ∀ p, ∃ l : List AccountId,
    (World.ofStore store).run (Forest.children p) = (.ok l, World.ofStore store) ∧
      l.Pairwise AccountId.ShorterFirst ∧
      (∀ c, c ∈ l ↔ ∃ r, m.get? c = some r ∧ r.referrer = some p) ∧
      (l.Pairwise AccountId.Before ↔
        ∀ c ∈ l, ∀ d ∈ l, c.bytes.length < d.bytes.length → c.Before d)

/-- The accounts of a map, in account order. -/
theorem Roster.pairwise_before (m : Roster) : (m.toList.map Prod.fst).Pairwise AccountId.Before :=
  List.pairwise_map.mpr m.sorted

/-- A store that keeps a forest and its relations has exact listings. -/
theorem World.Keeps.lists {store : Store} {L : Ledger} (h : (World.ofStore store).Keeps L)
    (related : L.Related) : store.Lists L.records where
  holds := Forest.holds_of_keeps h
  records :=
    ⟨L.records.toList, h.run_allRecords, L.records.pairwise_before,
      fun _ _ => SortedMap.mem_toList_iff⟩
  roots := by
    refine ⟨L.records.roots.map Prod.fst, h.run_roots,
      L.records.pairwise_before.sublist (List.filter_sublist.map _), fun a => ?_⟩
    rw [List.mem_map]
    constructor
    · rintro ⟨⟨b, r⟩, hroot, rfl⟩
      obtain ⟨hmem, htop⟩ := List.mem_filter.mp hroot
      exact ⟨r, SortedMap.mem_toList_iff.mp hmem, Option.isNone_iff_eq_none.mp htop⟩
    · rintro ⟨r, hr, htop⟩
      exact ⟨(a, r), List.mem_filter.mpr
        ⟨SortedMap.mem_toList_iff.mpr hr, Option.isNone_iff_eq_none.mpr htop⟩, rfl⟩
  children p := by
    obtain ⟨l, hsorted, hmem, hrun⟩ := h.run_children_sorted p
    refine ⟨l, hrun, hsorted, fun c => ?_, AccountId.pairwise_before_iff hsorted⟩
    rw [hmem, related p c, Roster.parentOf, Option.bind_eq_some_iff]

namespace Forest

variable {host : Host}

/-- **The listings are exact after every history**: all records and the roots in account order, the
referrals of an account with the shorter names first. -/
theorem lists_after (quiet : host.Quiet) (turns : List Turn) :
    ∃ m, (after host turns).Lists m := by
  obtain ⟨L, hkeeps, -, -, hrelated⟩ := exists_related_after quiet turns
  exact ⟨L.records, hkeeps.lists hrelated⟩

end Forest

/-! ### Referrals of different lengths -/

namespace SmallHistory

/-- A referral with a short name. -/
def short : AccountId := ⟨"b", by decide, by decide⟩

/-- A referral with a longer name, which comes first in account order. -/
def long : AccountId := ⟨"aa", by decide, by decide⟩

/-- A root with the two referrals; latest first. -/
def siblings : List Turn :=
  [⟨⟨20⟩, .append root long⟩, ⟨⟨10⟩, .append root short⟩, ⟨⟨0⟩, .addRoot root .new⟩]

end SmallHistory

namespace Forest

open SmallHistory

/-- The listings of the small forest are exact. -/
theorem lists_after_siblings :
    Host.standalone.Quiet ∧ ∃ m, (after Host.standalone siblings).Lists m :=
  ⟨Host.quiet_standalone, lists_after Host.quiet_standalone siblings⟩

/-- **Referrals are not listed in account order**: the longer name comes first in account order and is
listed last. -/
theorem children_out_of_order :
    ((World.ofStore (after Host.standalone siblings)).run (children root)).1.toOption =
        some [short, long] ∧
      long.Before short ∧ ¬ [short, long].Pairwise AccountId.Before := by
  have hbefore : compare long short = .lt ∧ compare short long = .gt := by decide +kernel
  refine ⟨by decide +kernel, hbefore.1, fun h => ?_⟩
  have hswapped : compare short long = .lt := (List.pairwise_cons.mp h).1 long List.mem_cons_self
  exact absurd (hbefore.2.symm.trans hswapped) (by decide)

end Forest

end ReferralForest

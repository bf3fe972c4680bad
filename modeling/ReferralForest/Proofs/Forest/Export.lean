import ReferralForest.Forest.Snapshot
import ReferralForest.Proofs.Forest.Regular

/-!
# Writing a Forest Out

An export walks the forest level by level. What it writes is a *layout*: the roots, and then groups of
referrals, each group after its referrer. The levels are the accounts with so many ancestors, so no
account is written twice, and since nobody has as many ancestors as there are records, the walk comes to
an end and misses nobody.

## Main definitions

* `Layout`, `Layout.genesis` — a forest laid out, and the document that says so.
* `Layout.byLevels` — the layout that an export writes out.
* `Roster.ConsistsOf`, `Layout.Covers` — a list of all records, and a layout of a whole forest.
* `Roster.AtDepth` — the number of ancestors of an account.

## Main statements

* `Layout.mem_level_iff` — the levels of the walk are those of the forest.
* `World.Keeps.exists_run_exportGenesis` — what an export writes out.
* `World.Keeps.run_exportGenesis` — an export succeeds and writes out a layout of the whole forest.
-/

namespace ReferralForest

open Roster

/-- The records are just those listed. -/
def Roster.ConsistsOf (m : Roster) (l : List (AccountId × Record)) : Prop :=
  ∀ e, e ∈ l ↔ m.get? e.1 = some e.2

/-- The roots with their records, in account order. -/
def Roster.roots (m : Roster) : List (AccountId × Record) := m.toList.filter fun e => e.2.isTopLevel

/-- A forest laid out: its roots, and groups of an account and its referrals. -/
structure Layout where
  /-- The roots. -/
  roots : List (AccountId × Record)
  /-- The referrals of accounts. -/
  groups : List (AccountId × List (AccountId × Record))

namespace Layout

/-- All accounts of a layout. -/
def members (o : Layout) : List (AccountId × Record) := o.roots ++ o.groups.flatMap Prod.snd

/-- A group as it is written. -/
def groupOf (g : AccountId × List (AccountId × Record)) : Group := ⟨g.1.text, g.2.map Forest.memberOf⟩

/-- The scheduled downgrade of an account as it is written. -/
def pendingOf (e : AccountId × Record) : Option PendingDowngrade :=
  e.2.downgradeAt.map fun time => ⟨e.1.text, e.2.status, time⟩

/-- **The document** that says how a forest is laid out. -/
def genesis (p : Params) (o : Layout) : Genesis :=
  ⟨p, some (o.roots.map Forest.memberOf), o.groups.map groupOf, o.members.filterMap pendingOf⟩

/-- Every group comes after its referrer, and its members are referrals of that account. -/
def Ordered : List (AccountId × Record) → List (AccountId × List (AccountId × Record)) → Prop
  | _, [] => True
  | placed, (p, l) :: rest =>
    (∃ r, (p, r) ∈ placed) ∧ (∀ e ∈ l, e.2.referrer = some p) ∧ Ordered (placed ++ l) rest

/-- **A layout covers a forest** if everybody stands in it once, in the right place. -/
structure Covers (o : Layout) (m : Roster) : Prop where
  /-- Nobody stands in it twice. -/
  nodup : (o.members.map Prod.fst).Nodup
  /-- Just the accounts of the forest stand in it. -/
  consists : m.ConsistsOf o.members
  /-- The roots are roots. -/
  roots : ∀ e ∈ o.roots, e.2.referrer = none
  /-- The groups come after their referrers. -/
  ordered : Ordered o.roots o.groups

/-! ### Levels -/

section Levels

variable (referrals : AccountId → List (AccountId × Record))

/-- The level below a level. -/
def below (level : List (AccountId × Record)) : List (AccountId × Record) :=
  level.flatMap fun e => referrals e.1

/-- The groups of a level's referrals. -/
def groupsOf (level : List (AccountId × Record)) : List (AccountId × List (AccountId × Record)) :=
  (level.map fun e => (e.1, referrals e.1)).filter fun g => !g.2.isEmpty

/-- The groups of a level and of those below it, so many levels in all. -/
def groupsFrom : Nat → List (AccountId × Record) → List (AccountId × List (AccountId × Record))
  | 0, _ => []
  | n + 1, level => groupsOf referrals level ++ groupsFrom n (below referrals level)

/-- **The layout by levels** of the accounts at the top, so many levels in all. -/
def byLevels (n : Nat) (top : List (AccountId × Record)) : Layout := ⟨top, groupsFrom referrals n top⟩

/-- The accounts of a level and of those below it, so many levels in all. -/
def levelsFrom : Nat → List (AccountId × Record) → List (AccountId × Record)
  | 0, _ => []
  | n + 1, level => level ++ levelsFrom n (below referrals level)

variable {referrals}

/-- Accounts without referrals have no group. -/
theorem groupsOf_cons (e : AccountId × Record) (level : List (AccountId × Record)) :
    groupsOf referrals (e :: level) =
      if (referrals e.1).isEmpty then groupsOf referrals level
      else (e.1, referrals e.1) :: groupsOf referrals level := by
  cases h : (referrals e.1).isEmpty <;> simp [groupsOf, h]

/-- The members of a level's groups are the level below. -/
theorem flatMap_groupsOf (level : List (AccountId × Record)) :
    (groupsOf referrals level).flatMap Prod.snd = below referrals level := by
  induction level with
  | nil => rfl
  | cons e rest ih =>
      rw [below, List.flatMap_cons, ← below, ← ih, groupsOf_cons]
      cases referrals e.1 <;> simp

/-- The members of all groups are the levels below the first. -/
theorem append_flatMap_groupsFrom (n : Nat) (level : List (AccountId × Record)) :
    level ++ (groupsFrom referrals n level).flatMap Prod.snd =
      levelsFrom referrals n level ++ (below referrals)^[n] level := by
  induction n generalizing level with
  | zero => simp [groupsFrom, levelsFrom]
  | succ n ih =>
      rw [groupsFrom, levelsFrom, List.flatMap_append, flatMap_groupsOf, ih,
        Function.iterate_succ_apply, List.append_assoc]

/-- The groups of some levels, and then of others. -/
theorem groupsFrom_add (n k : Nat) (level : List (AccountId × Record)) :
    groupsFrom referrals (n + k) level =
      groupsFrom referrals n level ++ groupsFrom referrals k ((below referrals)^[n] level) := by
  induction n generalizing level with
  | zero => rw [Nat.zero_add, groupsFrom, List.nil_append, Function.iterate_zero_apply]
  | succ n ih =>
      rw [Nat.add_right_comm, groupsFrom, ih, groupsFrom, Function.iterate_succ_apply,
        List.append_assoc]

/-- Where there is nobody, there are no groups. -/
theorem groupsFrom_nil (n : Nat) : groupsFrom referrals n [] = [] := by
  induction n with
  | zero => rfl
  | succ n ih => exact ih

/-- More levels than there are make no difference. -/
theorem groupsFrom_eq_of_le {n k : Nat} {level : List (AccountId × Record)}
    (ends : (below referrals)^[n] level = []) (le : n ≤ k) :
    groupsFrom referrals n level = groupsFrom referrals k level := by
  obtain ⟨d, rfl⟩ := Nat.exists_eq_add_of_le le
  rw [groupsFrom_add, ends, groupsFrom_nil, List.append_nil]

/-- Who is in one of the levels. -/
theorem mem_levelsFrom_iff {n : Nat} {level : List (AccountId × Record)} {e : AccountId × Record} :
    e ∈ levelsFrom referrals n level ↔ ∃ k < n, e ∈ (below referrals)^[k] level := by
  induction n generalizing level with
  | zero => simp [levelsFrom]
  | succ n ih =>
      rw [levelsFrom, List.mem_append, ih]
      constructor
      · rintro (he | ⟨k, hk, he⟩)
        · exact ⟨0, by omega, he⟩
        · exact ⟨k + 1, by omega, he⟩
      · rintro ⟨k, hk, he⟩
        cases k with
        | zero => exact .inl he
        | succ k => exact .inr ⟨k, by omega, he⟩

/-- Groups one after another come after their referrers. -/
theorem ordered_append_iff {placed : List (AccountId × Record)}
    {gs gs' : List (AccountId × List (AccountId × Record))} :
    Ordered placed (gs ++ gs') ↔ Ordered placed gs ∧ Ordered (placed ++ gs.flatMap Prod.snd) gs' := by
  induction gs generalizing placed with
  | nil => simp [Ordered]
  | cons g rest ih =>
      rw [List.cons_append, Ordered, Ordered, ih, List.flatMap_cons, List.append_assoc]
      tauto

/-- The groups of levels come after their referrers. -/
theorem ordered_groupsFrom (below_eq : ∀ p, ∀ e ∈ referrals p, e.2.referrer = some p) (n : Nat)
    {level placed : List (AccountId × Record)} (there : ∀ e ∈ level, e ∈ placed) :
    Ordered placed (groupsFrom referrals n level) := by
  have hgroups : ∀ {level placed : List (AccountId × Record)}, (∀ e ∈ level, e ∈ placed) →
      Ordered placed (groupsOf referrals level) := by
    intro level
    induction level with
    | nil => exact fun _ => trivial
    | cons e rest ih =>
        intro placed hthere
        rw [groupsOf_cons]
        split
        next => exact ih fun d hd => hthere d (List.mem_cons_of_mem _ hd)
        next =>
            refine ⟨⟨e.2, hthere e List.mem_cons_self⟩, below_eq e.1, ih fun d hd => ?_⟩
            exact List.mem_append_left _ (hthere d (List.mem_cons_of_mem _ hd))
  induction n generalizing level placed with
  | zero => trivial
  | succ n ih =>
      rw [groupsFrom, ordered_append_iff, flatMap_groupsOf]
      exact ⟨hgroups there, ih fun e he => List.mem_append_right _ he⟩

/-- Below a level where there is nobody there is nobody. -/
theorem iterate_below_eq_nil_of_le {n k : Nat} {level : List (AccountId × Record)}
    (ends : (below referrals)^[n] level = []) (le : n ≤ k) : (below referrals)^[k] level = [] := by
  obtain ⟨d, rfl⟩ := Nat.exists_eq_add_of_le' le
  rw [Function.iterate_add_apply, ends]
  exact Function.iterate_fixed rfl d

end Levels

end Layout

/-! ### Depth -/

namespace Roster

variable {m : Roster} {a p : AccountId} {n k : Nat}

/-- **An account has so many ancestors.** -/
def AtDepth (m : Roster) (n : Nat) (a : AccountId) : Prop :=
  ancestor? m n a ≠ none ∧ ancestor? m (n + 1) a = none

/-- An account has one number of ancestors. -/
theorem AtDepth.unique (h : AtDepth m n a) (h' : AtDepth m k a) : n = k := by
  by_contra hne
  rcases Nat.lt_or_gt_of_ne hne with hlt | hlt
  · exact h'.1 (ancestor?_eq_none_of_le hlt h.2)
  · exact h.1 (ancestor?_eq_none_of_le hlt h'.2)

/-- A referral has one ancestor more. -/
theorem atDepth_succ_iff (hp : parentOf m a = some p) : AtDepth m (n + 1) a ↔ AtDepth m n p := by
  rw [AtDepth, AtDepth, ancestor?, ancestor?, hp, Option.bind_some, Option.bind_some]

/-- Roots have no ancestors, and only they have none. -/
theorem atDepth_zero_iff : AtDepth m 0 a ↔ parentOf m a = none := by
  rw [AtDepth, ancestor?_zero, Nat.zero_add, ancestor?_one]
  exact and_iff_right (by simp)

/-- Everybody has a number of ancestors. -/
theorem IsForest.exists_atDepth (h : IsForest m) (a : AccountId) : ∃ n, AtDepth m n a := by
  classical
  have hends := h.rooted a
  obtain ⟨g, hg, hmin⟩ : ∃ g, ancestor? m g a = none ∧ ∀ k < g, ancestor? m k a ≠ none :=
    ⟨Nat.find hends, Nat.find_spec hends, fun k hk => Nat.find_min hends hk⟩
  cases g with
  | zero =>
      rw [ancestor?_zero] at hg
      contradiction
  | succ n => exact ⟨n, hmin n (by omega), hg⟩

/-- Nobody has as many ancestors as there are records. -/
theorem IsForest.depth_lt (h : IsForest m) (found : m.get? a ≠ none) (depth : AtDepth m n a)
    {bound : Nat} (bounded : m.size ≤ bound) : n < bound := by
  by_contra hge
  exact depth.1 (ancestor?_eq_none_of_le (Nat.le_of_not_lt hge)
    (h.ancestor?_eq_none_of_size_le found bounded))

end Roster

namespace Layout

variable {m : Roster} {referrals : AccountId → List (AccountId × Record)}
  {top : List (AccountId × Record)}

/-- **Lists of the roots and of everybody's referrals**, each of them once. -/
structure Lists (m : Roster) (top : List (AccountId × Record))
    (referrals : AccountId → List (AccountId × Record)) : Prop where
  /-- The roots are listed. -/
  mem_top : ∀ e, e ∈ top ↔ m.get? e.1 = some e.2 ∧ e.2.referrer = none
  /-- No root is listed twice. -/
  nodup_top : top.Nodup
  /-- The referrals are listed. -/
  mem_referrals : ∀ p e, e ∈ referrals p ↔ m.get? e.1 = some e.2 ∧ e.2.referrer = some p
  /-- No referral is listed twice. -/
  nodup_referrals : ∀ p, (referrals p).Nodup

namespace Lists

variable (h : Lists m top referrals) (forest : IsForest m)
include h forest

/-- **The levels of the walk** are those of the forest. -/
theorem mem_level_iff {n : Nat} {e : AccountId × Record} :
    e ∈ (below referrals)^[n] top ↔ m.get? e.1 = some e.2 ∧ AtDepth m n e.1 := by
  induction n generalizing e with
  | zero =>
      rw [Function.iterate_zero_apply, h.mem_top, atDepth_zero_iff]
      refine and_congr_right fun he => ?_
      rw [parentOf_of_get? he]
  | succ n ih =>
      rw [Function.iterate_succ_apply', below, List.mem_flatMap]
      constructor
      · rintro ⟨d, hd, he⟩
        obtain ⟨hfound, hreferrer⟩ := (h.mem_referrals d.1 e).mp he
        refine ⟨hfound, (atDepth_succ_iff ?_).mpr (ih.mp hd).2⟩
        rw [parentOf_of_get? hfound, hreferrer]
      · rintro ⟨hfound, hdepth⟩
        have hparent := parentOf_of_get? hfound
        cases hp : e.2.referrer with
        | none =>
            rw [hp] at hparent
            rw [AtDepth, ancestor?, hparent] at hdepth
            exact absurd rfl hdepth.1
        | some p =>
            rw [hp] at hparent
            obtain ⟨r, hr⟩ := Option.ne_none_iff_exists'.mp (forest.closed e.1 p hparent)
            exact ⟨(p, r), ih.mpr ⟨hr, (atDepth_succ_iff hparent).mp hdepth⟩,
              (h.mem_referrals p e).mpr ⟨hfound, hp⟩⟩

/-- No account stands in two levels, or in one of them twice: whoever stands in a later one has more
ancestors. -/
theorem nodup_levelsFrom (n : Nat) : (levelsFrom referrals n top).Nodup := by
  have hlevel : ∀ k, ((below referrals)^[k] top).Nodup := by
    intro k
    induction k with
    | zero => exact h.nodup_top
    | succ k ih =>
        rw [Function.iterate_succ_apply', below, List.nodup_flatMap]
        refine ⟨fun e _ => h.nodup_referrals e.1, List.Pairwise.imp_of_mem ?_ ih⟩
        intro d e hd he hne c hc hc'
        obtain ⟨-, hfirst⟩ := (h.mem_referrals d.1 c).mp hc
        obtain ⟨-, hsecond⟩ := (h.mem_referrals e.1 c).mp hc'
        have hsame : d.1 = e.1 := Option.some.inj (hfirst.symm.trans hsecond)
        have hfound := ((h.mem_level_iff forest).mp hd).1
        rw [hsame, ((h.mem_level_iff forest).mp he).1] at hfound
        exact hne (Prod.ext hsame (Option.some.inj hfound).symm)
  have hall : ∀ n k, (levelsFrom referrals n ((below referrals)^[k] top)).Nodup := by
    intro n
    induction n with
    | zero => exact fun _ => List.nodup_nil
    | succ n ih =>
        intro k
        have hnext := ih (k + 1)
        rw [Function.iterate_succ_apply'] at hnext
        rw [levelsFrom, List.nodup_append']
        refine ⟨hlevel k, hnext, fun e he he' => ?_⟩
        obtain ⟨j, -, hj⟩ := mem_levelsFrom_iff.mp he'
        have hlater : e ∈ (below referrals)^[j + (k + 1)] top := by
          rwa [Function.iterate_add_apply, Function.iterate_succ_apply']
        have hdepth := ((h.mem_level_iff forest).mp he).2
        have := hdepth.unique ((h.mem_level_iff forest).mp hlater).2
        omega
  exact hall n 0

/-- **Everybody is in one of the levels**, however few they are, if nobody is below them. -/
theorem mem_levelsFrom_iff_of_ends {n : Nat} (ends : (below referrals)^[n] top = [])
    {e : AccountId × Record} : e ∈ levelsFrom referrals n top ↔ m.get? e.1 = some e.2 := by
  rw [mem_levelsFrom_iff]
  constructor
  · rintro ⟨k, -, he⟩
    exact ((h.mem_level_iff forest).mp he).1
  · intro hfound
    obtain ⟨k, hk⟩ := forest.exists_atDepth e.1
    have he := (h.mem_level_iff forest).mpr ⟨hfound, hk⟩
    refine ⟨k, Nat.lt_of_not_le fun hle => ?_, he⟩
    rw [iterate_below_eq_nil_of_le ends hle] at he
    contradiction

section Bounded

variable {bound : Nat} (bounded : m.size ≤ bound)
include bounded

/-- There are no more levels than records. -/
theorem level_eq_nil : (below referrals)^[bound] top = [] := by
  refine List.eq_nil_iff_forall_not_mem.mpr fun e he => ?_
  obtain ⟨hfound, hdepth⟩ := (h.mem_level_iff forest).mp he
  exact Nat.lt_irrefl bound (forest.depth_lt (by simp [hfound]) hdepth bounded)

/-- The members of the layout by levels. -/
theorem members_eq :
    (byLevels referrals bound top).members = levelsFrom referrals bound top := by
  rw [members, byLevels, append_flatMap_groupsFrom, h.level_eq_nil forest bounded, List.append_nil]

/-- **The layout by levels** covers the forest. -/
theorem covers : (byLevels referrals bound top).Covers m := by
  have hmem : ∀ e, e ∈ levelsFrom referrals bound top ↔ m.get? e.1 = some e.2 :=
    fun _ => h.mem_levelsFrom_iff_of_ends forest (h.level_eq_nil forest bounded)
  refine ⟨?_, fun e => ?_, fun e he => ((h.mem_top e).mp he).2, ?_⟩
  · rw [h.members_eq forest bounded]
    refine (h.nodup_levelsFrom forest bound).map_on ?_
    intro d hd e he hsame
    have hfound := (hmem d).mp hd
    rw [hsame, (hmem e).mp he] at hfound
    exact Prod.ext hsame (Option.some.inj hfound).symm
  · rw [h.members_eq forest bounded, hmem e]
  · exact ordered_groupsFrom (fun p e he => ((h.mem_referrals p e).mp he).2) bound fun e he => he

end Bounded

end Lists

end Layout

/-! ### Programs -/

namespace World.Keeps

open Forest Layout

variable {w : World} {L : Ledger} {referrals : AccountId → List (AccountId × Record)}

/-- Looking up the records of some accounts. -/
theorem run_withRecords (h : w.Keeps L) {l : List (AccountId × Record)}
    (found : ∀ e ∈ l, L.records.get? e.1 = some e.2) :
    w.run (withRecords (l.map Prod.fst)) = (.ok l, w) := by
  induction l with
  | nil => rfl
  | cons e rest ih =>
      have hrecord := h.run_record e.1
      rw [found e List.mem_cons_self] at hrecord
      have hrest := ih fun d hd => found d (List.mem_cons_of_mem _ hd)
      rw [List.map_cons, withRecords, run_bind_of_ok hrecord, run_bind_of_ok hrest]
      rfl

/-- **Listing the roots**, in account order. -/
theorem run_roots (h : w.Keeps L) :
    w.run Forest.roots =
      (.ok (L.records.roots.map Prod.fst), w) := by
  have hread : ∀ e ∈ L.records.toList, readRootEntry (Ledger.recordEntry e) =
      .ok (if e.2.isTopLevel then some e.1 else none) := by
    rintro ⟨a, r⟩ he
    have hfull := h.stored.full a r (SortedMap.mem_toList_iff.mp he)
    rw [readRootEntry, Ledger.recordEntry]
    dsimp only
    rw [Record.decode_encode hfull, Slot.parseRecord_key]
    cases hr : r.isTopLevel <;>
      simp [hr, bind, Except.bind, Functor.map, Except.map, pure, Except.pure]
  have hlist : ∀ l : List (AccountId × Record),
      (l.filterMap fun e => if e.2.isTopLevel then some e.1 else none) =
        (l.filter fun e => e.2.isTopLevel).map Prod.fst := by
    intro l
    induction l with
    | nil => rfl
    | cons e rest ih => cases he : e.2.isTopLevel <;> simp [he, ih]
  rw [Forest.roots, run_bind_of_ok (h.run_range Slot.allRecords), h.stored.toList_records,
    mapM_map_eq_ok hread, run_ofExcept, Except.map, List.filterMap_map, Function.id_comp, hlist,
    Roster.roots]

/-- **Listing the referrals of everybody**, with their records. -/
theorem exists_referrals (h : w.Keeps L) (related : L.Related) (p : AccountId) :
    ∃ l : List (AccountId × Record), l.Nodup ∧
      (∀ e, e ∈ l ↔ L.records.get? e.1 = some e.2 ∧ e.2.referrer = some p) ∧
      w.run (children p) = (.ok (l.map Prod.fst), w) := by
  obtain ⟨cs, hnodup, hmem, hrun⟩ := h.run_children p
  have hplaced : ∀ c, c ∈ cs ↔ ∃ r, L.records.get? c = some r ∧ r.referrer = some p := by
    intro c
    rw [hmem, related, parentOf, Option.bind_eq_some_iff]
  let l := cs.filterMap fun c => (L.records.get? c).map fun r => (c, r)
  have hfst : l.map Prod.fst = cs := by
    have hall : ∀ cs : List AccountId, (∀ c ∈ cs, ∃ r, L.records.get? c = some r) →
        (cs.filterMap fun c => (L.records.get? c).map fun r => (c, r)).map Prod.fst = cs := by
      intro cs hcs
      induction cs with
      | nil => rfl
      | cons c rest ih =>
          obtain ⟨r, hr⟩ := hcs c List.mem_cons_self
          simp [hr, ih fun d hd => hcs d (List.mem_cons_of_mem _ hd)]
    exact hall cs fun c hc => ((hplaced c).mp hc).imp fun _ hr => hr.1
  refine ⟨l, List.Nodup.of_map Prod.fst (hfst ▸ hnodup), fun e => ?_, hfst ▸ hrun⟩
  have hentry : e ∈ l ↔ e.1 ∈ cs ∧ L.records.get? e.1 = some e.2 := by
    rw [List.mem_filterMap]
    constructor
    · rintro ⟨c, hc, he⟩
      obtain ⟨r, hr, rfl⟩ := Option.map_eq_some_iff.mp he
      exact ⟨hc, hr⟩
    · rintro ⟨hc, hr⟩
      exact ⟨e.1, hc, by rw [hr]; rfl⟩
  rw [hentry, hplaced]
  constructor
  · rintro ⟨⟨r, hr, hreferrer⟩, he⟩
    obtain rfl := Option.some.inj (hr.symm.trans he)
    exact ⟨he, hreferrer⟩
  · rintro ⟨he, hreferrer⟩
    exact ⟨⟨e.2, he, hreferrer⟩, he⟩

section Walk

variable (h : w.Keeps L) (found : ∀ p, ∀ e ∈ referrals p, L.records.get? e.1 = some e.2)
  (listed : ∀ p, w.run (children p) = (.ok ((referrals p).map Prod.fst), w))
include h found listed

/-- Writing out a level. -/
theorem run_exportLevel (level : List (AccountId × Record)) :
    w.run (exportLevel level) =
      (.ok ⟨below referrals level, (groupsOf referrals level).map groupOf, level.filterMap pendingOf⟩,
        w) := by
  induction level with
  | nil => rfl
  | cons e rest ih =>
      obtain ⟨a, r⟩ := e
      rw [exportLevel, run_bind_of_ok (listed a), run_bind_of_ok (h.run_withRecords (found a)),
        run_bind_of_ok ih, groupsOf_cons]
      cases (referrals a).isEmpty <;> cases hd : r.downgradeAt <;>
        simp [below, groupOf, pendingOf, hd]

/-- Writing out levels. -/
theorem run_exportLevels {bound : Nat} {level : List (AccountId × Record)}
    (ends : (below referrals)^[bound] level = []) :
    w.run (exportLevels bound level) =
      (.ok ((groupsFrom referrals bound level).map groupOf,
        (levelsFrom referrals bound level).filterMap pendingOf), w) := by
  induction bound generalizing level with
  | zero =>
      rw [Function.iterate_zero_apply] at ends
      rw [ends]
      rfl
  | succ bound ih =>
      rw [Function.iterate_succ_apply] at ends
      have hrest := ih ends
      cases level with
      | nil =>
          have hnothing : ∀ n, exportLevels n [] = pure ([], []) := by
            intro n
            cases n <;> rfl
          rw [show below referrals [] = [] from rfl, hnothing] at hrest
          rw [hnothing]
          exact hrest
      | cons e rest =>
          rw [exportLevels, run_bind_of_ok (h.run_exportLevel found listed (e :: rest)),
            run_bind_of_ok hrest, groupsFrom, levelsFrom, List.map_append, List.filterMap_append]
          · rfl
          · simp

end Walk

/-- **What an export writes out**: by levels, the listed roots and the listed referrals of everybody. -/
theorem exists_run_exportGenesis (h : w.Keeps L) (forest : IsForest L.records) (related : L.Related) :
    ∃ referrals, Lists L.records L.records.roots referrals ∧
      (∀ p, w.run (children p) = (.ok ((referrals p).map Prod.fst), w)) ∧
      w.run exportGenesis = (.ok ((byLevels referrals L.records.size L.records.roots).genesis
        (L.params.getD .default)), w) := by
  choose referrals hnodup hmem hlisted using h.exists_referrals related
  have hlists : Lists L.records L.records.roots referrals := by
    refine ⟨fun e => ?_, ?_, hmem, hnodup⟩
    · rw [Roster.roots, List.mem_filter, SortedMap.mem_toList_iff, Record.isTopLevel,
        Option.isNone_iff_eq_none]
    · exact (List.Nodup.of_map Prod.fst L.records.nodup_keys).filter _
  have hbounded : L.records.size ≤ w.store.size := h.stored.size_records_le
  have hfound : ∀ p, ∀ e ∈ referrals p, L.records.get? e.1 = some e.2 :=
    fun p e he => ((hmem p e).mp he).1
  have hsize : w.run Program.size = (.ok w.store.size, w) := run_request w Call.size
  have hlayout : byLevels referrals L.records.size L.records.roots =
      byLevels referrals w.store.size L.records.roots := by
    rw [byLevels, byLevels, groupsFrom_eq_of_le (hlists.level_eq_nil forest le_rfl) hbounded]
  refine ⟨referrals, hlists, hlisted, ?_⟩
  rw [exportGenesis, run_bind_of_ok h.run_params, run_bind_of_ok h.run_roots]
  refine (run_bind_of_ok (h.run_withRecords fun e he => ((hlists.mem_top e).mp he).1) _).trans ?_
  rw [run_bind_of_ok hsize,
    run_bind_of_ok (h.run_exportLevels hfound hlisted (hlists.level_eq_nil forest hbounded)),
    hlayout, genesis, hlists.members_eq forest hbounded]
  rfl

/-- **An export succeeds** and writes out a layout of the whole forest. -/
theorem run_exportGenesis (h : w.Keeps L) (forest : IsForest L.records) (related : L.Related) :
    ∃ o : Layout, o.Covers L.records ∧
      w.run exportGenesis = (.ok (o.genesis (L.params.getD .default)), w) := by
  obtain ⟨referrals, hlists, -, hrun⟩ := h.exists_run_exportGenesis forest related
  exact ⟨_, hlists.covers forest le_rfl, hrun⟩

end World.Keeps

end ReferralForest

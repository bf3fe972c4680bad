import ReferralForest.Proofs.Forest.History
import ReferralForest.Proofs.Forest.Lineage
import ReferralForest.Proofs.SortedMap.Totals

/-!
# Kinship

Who is whose referral is kept twice: every record names its referrer, and a relation key marks every
referral. The relation is written at once and the record when the operation ends, by three ways of
entering the forest; after every history the two say the same, referrers lead up to a root, and nobody
has left the forest or moved in it.

## Main definitions

* `AccountId.ShorterFirst` — the order of the relation keys of a referrer.
* `Ledger.Related` — the relations marked are those of the referrers in the records.
* `Roster.RisesBy` — a line of referrers that ends at a root.
* `Store.Kinship` — the forest of a store, by its records and by its relations.

## Main statements

* `World.Keeps.run_children_sorted` — listing the referrals of an account.
* `Forest.kinship_after` — records and relations agree after every history, and what has been in the
  forest before is still in its place.
-/

namespace ReferralForest

/-! ### Relations -/

/-- The order of the relation keys of a referrer: shorter names first, and names of one length in account
order. -/
def AccountId.ShorterFirst (c d : AccountId) : Prop :=
  c.bytes.length < d.bytes.length ∨ c.bytes.length = d.bytes.length ∧ compare c d = .lt

/-- Shorter names first is the order of the relation keys. -/
theorem AccountId.shorterFirst_iff {p c d : AccountId} :
    c.ShorterFirst d ↔ compare (Slot.relation p c).key (Slot.relation p d).key = .lt := by
  rw [Slot.compare_key_relation, Ordering.then_eq_lt, Nat.compare_eq_lt, Nat.compare_eq_eq,
    AccountId.ShorterFirst]

/-- No name is before itself. -/
theorem AccountId.ShorterFirst.ne {c d : AccountId} (h : c.ShorterFirst d) : c ≠ d := by
  rintro rfl
  obtain hlt | ⟨-, hlt⟩ := h
  · exact Nat.lt_irrefl _ hlt
  · exact SortedMap.not_lt_self c hlt

/-- **The relations marked** are those of the referrers in the records. -/
def Ledger.Related (L : Ledger) : Prop :=
  ∀ p c, (p, c) ∈ L.relations ↔ Roster.parentOf L.records c = some p

namespace Ledger.Related

variable {L L' : Ledger} {p c : AccountId} {r : Record}

/-- Where there are no records no relation is marked. -/
theorem empty : Ledger.empty.Related := by
  intro p c
  simp [Ledger.empty, Roster.parentOf]

/-- A root enters without a relation. -/
theorem put_root (h : L.Related) (fresh : L.records.get? c = none) (root : r.referrer = none) :
    (L.put c r).Related := by
  intro q d
  rw [show (L.put c r).relations = L.relations from rfl, h q d, Ledger.put]
  by_cases hd : d = c
  · subst hd
    rw [Roster.parentOf_insert_self, root, Roster.parentOf, fresh, Option.bind_none]
  · rw [Roster.parentOf_insert_of_ne hd]

/-- A referral enters with its relation. -/
theorem put_relate (h : L.Related) (fresh : L.records.get? c = none) (below : r.referrer = some p) :
    ((L.put c r).relate p c).Related := by
  intro q d
  have hmem : (q, d) ∈ ((L.put c r).relate p c).relations ↔
      (q, d) = (p, c) ∨ (q, d) ∈ L.relations := Set.mem_insert_iff
  rw [hmem, h q d, Ledger.relate, Ledger.put]
  by_cases hd : d = c
  · subst hd
    rw [Roster.parentOf_insert_self, below, Roster.parentOf, fresh, Option.bind_none]
    simp [eq_comm]
  · rw [Roster.parentOf_insert_of_ne hd]
    simp [hd]

/-- Whatever leaves relations and referrers alone keeps them in agreement. -/
theorem congr (h : L.Related) (relations : L'.relations = L.relations)
    (parents : Roster.parentOf L'.records = Roster.parentOf L.records) : L'.Related := by
  intro p c
  rw [relations, parents]
  exact h p c

/-- Walks neither mark relations nor move anybody. -/
theorem walk {P : Edit} (h : L.Related) (walk : Walk P L L') : L'.Related :=
  h.congr walk.relations_eq (Roster.parentOf_walk walk)

end Ledger.Related

/-- **A move keeps relations and referrers in agreement.** A registration marks its relation between two
walks, and neither of them sees it. -/
theorem Move.Takes.related {m : Move} {L L' : Ledger} (h : m.Takes L L')
    (full : Roster.Full L.records) (related : L.Related) : L'.Related := by
  cases h with
  | setParams => exact related
  | addRoot fresh => exact related.put_root fresh rfl
  | addReferral fresh => exact related.put_relate fresh rfl
  | register fresh placed parent above =>
      next L₁ now p c =>
        have hentered := related.put_relate fresh (r := .fresh (some p) .new) (p := p) rfl
        have hplaces : Roster.parentOf L₁.records =
            Roster.parentOf (L.put c (.fresh (some p) .new)).records := Roster.parentOf_walk parent
        have hparent : (L₁.relate p c).Related :=
          hentered.congr (congrArg (insert (p, c)) parent.relations_eq) hplaces
        exact hparent.walk above
  | changeStake course => exact related.walk (Cascade.walk_changeStake full course)
  | setActive course => exact related.walk (Cascade.walk_setActive full course)
  | reschedule found =>
      next t a r =>
        refine related.congr ?_ ?_
        · cases r.downgradeAt <;> rfl
        · rw [Ledger.put, Ledger.enqueue, Ledger.records_unschedule]
          exact Roster.parentOf_insert found rfl
  | lower found scheduled due settles =>
      next L₂ now t a r r' =>
        have hrecords := settles.records_eq
        have hrelations := settles.relations_eq
        obtain ⟨s, u, rfl⟩ := settles.exists_eq_update
        refine related.congr hrelations ?_
        rw [Ledger.put, hrecords]
        exact Roster.parentOf_insert found rfl

/-! ### Nobody leaves or moves -/

/-- **A move leaves every account in its place.** -/
theorem Move.Takes.exists_same_referrer {mv : Move} {L L' : Ledger} {a : AccountId}
    {p : Option AccountId} (h : mv.Takes L L') (full : Roster.Full L.records)
    (found : ∃ r, L.records.get? a = some r ∧ r.referrer = p) :
    ∃ r, L'.records.get? a = some r ∧ r.referrer = p := by
  classical
  have walked : ∀ {P : Edit} {L' : Ledger}, Ledger.Walk P L L' →
      ∃ r, L'.records.get? a = some r ∧ r.referrer = p := by
    intro P L' hwalk
    obtain ⟨r, hr, hp⟩ := found
    have hmap := hwalk.map_referrer_eq a
    rw [hr, Option.map_some] at hmap
    obtain ⟨r', hr', hp'⟩ := Option.map_eq_some_iff.mp hmap
    exact ⟨r', hr', hp'.trans hp⟩
  by_cases calm : mv.Calm
  · refine h.records_invariant (I := fun m => ∃ r, m.get? a = some r ∧ r.referrer = p) ?_ ?_ calm found
    · rintro m c q s ⟨r, hr, hp⟩ hnone -
      have hne : a ≠ c := by
        rintro rfl
        rw [hnone] at hr
        contradiction
      exact ⟨r, by rw [SortedMap.get?_insert_of_ne _ _ hne, hr], hp⟩
    · rintro m b s st t ⟨r, hr, hp⟩ hb
      rw [SortedMap.get?_insert]
      split
      next hab =>
          rw [hab, hb] at hr
          exact ⟨_, rfl, (congrArg Record.referrer (Option.some.inj hr)).trans hp⟩
      next => exact ⟨r, hr, hp⟩
  · cases h with
    | changeStake course => exact walked (Cascade.walk_changeStake full course)
    | setActive course => exact walked (Cascade.walk_setActive full course)
    | _ => exact absurd trivial calm

/-! ### Lines of referrers -/

namespace Roster

variable {m : Roster} {a : AccountId}

/-- **A line of referrers** from an account up to a root: each is the referrer of the one before, and
no account stands in it twice. -/
structure RisesBy (m : Roster) (a : AccountId) (line : List AccountId) : Prop where
  /-- Each is the referrer of the one before. -/
  chain : (a :: line).IsChain fun b c => parentOf m b = some c
  /-- No account stands in it twice. -/
  nodup : (a :: line).Nodup
  /-- The last one is a root. -/
  root : ∃ r, m.get? (line.getLastD a) = some r ∧ r.referrer = none

/-- **Following referrers** leads from every account up to a root, without coming by an account twice. The
induction is on the levels above; that no account is above itself keeps the line simple. -/
theorem IsForest.exists_risesBy (h : IsForest m) (found : m.get? a ≠ none) :
    ∃ line, m.RisesBy a line := by
  have hline : ∀ g a, m.get? a ≠ none → ancestor? m g a = none →
      ∃ line, m.RisesBy a line ∧ ∀ b ∈ line, ∃ j, ancestor? m (j + 1) a = some b := by
    intro g
    induction g with
    | zero =>
        intro a _ hnone
        rw [ancestor?_zero] at hnone
        contradiction
    | succ g ih =>
        intro a hfound hnone
        cases hp : parentOf m a with
        | none =>
            obtain ⟨r, hr⟩ := Option.ne_none_iff_exists'.mp hfound
            rw [parentOf_of_get? hr] at hp
            exact ⟨[], ⟨by simp, by simp, r, hr, hp⟩, by simp⟩
        | some p =>
            rw [ancestor?, hp, Option.bind_some] at hnone
            obtain ⟨line, hrises, habove⟩ := ih p (h.closed a p hp) hnone
            have hmem : ∀ b ∈ p :: line, ∃ j, ancestor? m (j + 1) a = some b := by
              intro b hb
              rcases List.mem_cons.mp hb with rfl | hb
              · exact ⟨0, by rw [ancestor?_one, hp]⟩
              · obtain ⟨j, hj⟩ := habove b hb
                exact ⟨j + 1, by rw [ancestor?, hp, Option.bind_some, hj]⟩
            refine ⟨p :: line, ⟨List.isChain_cons_cons.mpr ⟨hp, hrises.chain⟩, ?_, ?_⟩, hmem⟩
            · refine List.nodup_cons.mpr ⟨fun ha => ?_, hrises.nodup⟩
              obtain ⟨j, hj⟩ := hmem a ha
              exact h.ancestor?_ne_self j hj
            · rw [List.getLastD_cons]
              exact hrises.root
  obtain ⟨g, hg⟩ := h.rooted a
  obtain ⟨line, hrises, -⟩ := hline g a found hg
  exact ⟨line, hrises⟩

namespace RisesBy

variable {b : AccountId} {line : List AccountId}

/-- The first in a line of referrers is the account's own. -/
theorem parentOf_eq_head? (h : m.RisesBy a line) : parentOf m a = line.head? := by
  cases line with
  | nil =>
      obtain ⟨r, hr, hroot⟩ := h.root
      rw [List.getLastD_nil] at hr
      rw [parentOf_of_get? hr, hroot, List.head?_nil]
  | cons b rest => exact (List.isChain_cons_cons.mp h.chain).1

/-- The rest of a line of referrers is that of the first in it. -/
theorem tail (h : m.RisesBy a (b :: line)) : m.RisesBy b line where
  chain := (List.isChain_cons_cons.mp h.chain).2
  nodup := (List.nodup_cons.mp h.nodup).2
  root := by
    have hroot := h.root
    rwa [List.getLastD_cons] at hroot

/-- Beyond the end of a line of referrers there is nobody. -/
theorem ancestor?_eq_none (h : m.RisesBy a line) : ancestor? m (line.length + 1) a = none := by
  induction line generalizing a with
  | nil => rw [List.length_nil, Nat.zero_add, ancestor?_one, h.parentOf_eq_head?, List.head?_nil]
  | cons p line ih =>
      rw [List.length_cons, ancestor?, h.parentOf_eq_head?, List.head?_cons, Option.bind_some]
      exact ih h.tail

/-- **A line of referrers is shorter** than the number of records. -/
theorem length_lt_size (h : m.RisesBy a line) (forest : IsForest m) (found : m.get? a ≠ none) :
    line.length < m.size := by
  have hmem : ∀ line a, m.RisesBy a line → m.get? a ≠ none → ∀ b ∈ a :: line, m.get? b ≠ none := by
    intro line
    induction line with
    | nil =>
        rintro a - hfound b hb
        rwa [List.mem_singleton.mp hb]
    | cons p rest ih =>
        intro a hrises hfound b hb
        obtain rfl | hb := List.mem_cons.mp hb
        · exact hfound
        · exact ih p hrises.tail (forest.closed a p hrises.parentOf_eq_head?) b hb
  exact SortedMap.length_le_size h.nodup (hmem line a h found)

end RisesBy

/-- **No account has as many ancestors** as there are records. -/
theorem IsForest.ancestor?_eq_none_of_size_le (h : IsForest m) (found : m.get? a ≠ none) {g : Nat}
    (hg : m.size ≤ g) : ancestor? m g a = none := by
  obtain ⟨line, hrises⟩ := h.exists_risesBy found
  have hshort := hrises.length_lt_size h found
  exact ancestor?_eq_none_of_le (Nat.le_trans hshort hg) hrises.ancestor?_eq_none

end Roster

/-! ### Listing referrals -/

namespace World.Keeps

variable {w : World} {L : Ledger}

/-- Asking for the referrer of an account. -/
theorem run_parent? (h : w.Keeps L) (a : AccountId) :
    w.run (Forest.parent? a) =
      (match L.records.get? a with
        | some r => .ok r.referrer
        | none => .error (.notFound a), w) := by
  have hrecord := h.run_record a
  rw [Forest.parent?, map_eq_pure_bind]
  cases hr : L.records.get? a with
  | none =>
      rw [hr] at hrecord
      rw [run_bind_of_error hrecord]
  | some r =>
      rw [hr] at hrecord
      rw [run_bind_of_ok hrecord]
      rfl

/-- The stored entries of a referrer's relations are those of its referrals, shorter names first. -/
theorem exists_relation_entries (h : w.Keeps L) (p : AccountId) :
    ∃ l : List AccountId, l.Pairwise AccountId.ShorterFirst ∧ (∀ c, c ∈ l ↔ (p, c) ∈ L.relations) ∧
      (w.store.view.filter fun k _ =>
          (KeyRange.beginningWith (Slot.childrenOf p)).contains k).toList =
        l.map fun c => ((Slot.relation p c).key, marker) := by
  have hinj : Function.Injective (Slot.relation p) := fun c d heq => (Slot.relation.inj heq).2
  have hcovers : ∀ slot : Slot, (KeyRange.beginningWith (Slot.childrenOf p)).contains slot.key = true ↔
      ∃ c, slot = .relation p c ∧ True := by
    intro slot
    simp only [Slot.childrenOf_contains_key_iff, and_true]
  have hmarks : ∀ (c : AccountId) (v : Value),
      L.value? (.relation p c) = some v ↔ c ∈ {c | (p, c) ∈ L.relations} ∧ v = marker := by
    intro c v
    rw [Ledger.value?, Option.ite_none_right_eq_some, Option.some_inj, eq_comm (a := marker),
      Set.mem_setOf_eq]
  obtain ⟨l, hsorted, hmem, hl⟩ := h.stored.exists_marked_entries hinj hcovers hmarks
  refine ⟨l, hsorted.imp AccountId.shorterFirst_iff.mpr, fun c => ?_, hl⟩
  rw [hmem, Set.mem_setOf_eq, and_iff_left trivial]

/-- **Listing the referrals** of an account gives them with the shorter names first. -/
theorem run_children_sorted (h : w.Keeps L) (p : AccountId) :
    ∃ l : List AccountId, l.Pairwise AccountId.ShorterFirst ∧ (∀ c, c ∈ l ↔ (p, c) ∈ L.relations) ∧
      w.run (Forest.children p) = (.ok l, w) := by
  obtain ⟨l, hsorted, hmem, hl⟩ := h.exists_relation_entries p
  refine ⟨l, hsorted, hmem, ?_⟩
  rw [Forest.children]
  rw [run_bind_of_ok (h.run_range _), hl, run_ofExcept, mapM_map_of_ok]
  intro c _
  rw [Slot.parseRelation_key]
  rfl

/-- Listing the referrals of an account gives each of them once. -/
theorem run_children (h : w.Keeps L) (p : AccountId) :
    ∃ l : List AccountId, l.Nodup ∧ (∀ c, c ∈ l ↔ (p, c) ∈ L.relations) ∧
      w.run (Forest.children p) = (.ok l, w) := by
  obtain ⟨l, hsorted, hmem, hrun⟩ := h.run_children_sorted p
  exact ⟨l, hsorted.imp fun hcd => hcd.ne, hmem, hrun⟩

end World.Keeps

/-! ### Histories -/

/-- **The forest of a store.** Every referrer has a record and following referrers leads up to a root;
a relation key is in the store just if the record of the referral names the referrer; and listing the
referrals of an account gives just those whose referrer it is, each once. -/
structure Store.Kinship (store : Store) (m : Roster) : Prop where
  /-- The records are those of the store. -/
  holds : store.Holds m
  /-- A referrer has a record. -/
  closed : ∀ a r p, m.get? a = some r → r.referrer = some p → ∃ q, m.get? p = some q
  /-- Following referrers leads up to a root. -/
  rises : ∀ a r, m.get? a = some r → ∃ line, m.RisesBy a line
  /-- Relation keys and records say the same. -/
  related : ∀ p c, store.view.contains (Slot.relation p c).key = true ↔
    ∃ r, m.get? c = some r ∧ r.referrer = some p
  /-- Listing referrals gives just those. -/
  children : ∀ p, ∃ l : List AccountId,
    (World.ofStore store).run (Forest.children p) = (.ok l, World.ofStore store) ∧ l.Nodup ∧
      ∀ c, c ∈ l ↔ (World.ofStore store).run (Forest.parent? c) = (.ok (some p), World.ofStore store)

/-- The keys of relations are those of the ledger. -/
theorem Ledger.StoredIn.contains_relation_iff {L : Ledger} {m : SortedMap Key Value}
    (h : L.StoredIn m) (p c : AccountId) :
    m.contains (Slot.relation p c).key = true ↔ (p, c) ∈ L.relations := by
  rw [SortedMap.contains, h.value, value?, Option.isSome_ite]

/-- A store that keeps a forest and its relations has the forest's kinship. -/
theorem World.Keeps.kinship {store : Store} {L : Ledger} (h : (World.ofStore store).Keeps L)
    (forest : Roster.IsForest L.records) (related : L.Related) : store.Kinship L.records where
  holds := Forest.holds_of_keeps h
  closed a r p hr hp :=
    Option.ne_none_iff_exists'.mp (forest.closed a p ((Roster.parentOf_of_get? hr).trans hp))
  rises a r hr := forest.exists_risesBy (by simp [hr])
  related p c := by
    rw [show store.view = (World.ofStore store).store.view from rfl, h.stored.contains_relation_iff,
      related p c, Roster.parentOf, Option.bind_eq_some_iff]
  children p := by
    obtain ⟨l, hnodup, hmem, hrun⟩ := h.run_children p
    refine ⟨l, hrun, hnodup, fun c => ?_⟩
    rw [hmem, related p c, h.run_parent?, Roster.parentOf]
    cases L.records.get? c <;> simp

namespace Forest

variable {host : Host}

/-- The ledger after a history, with its forest and its relations. -/
theorem exists_related_after (quiet : host.Quiet) (turns : List Turn) :
    ∃ L, (World.ofStore (after host turns)).Keeps L ∧ L.InStep ∧ Roster.IsForest L.records ∧
      L.Related :=
  invariant quiet ⟨.empty, .empty⟩ fun _ _ _ _ _ _ full _ htakes h =>
    ⟨htakes.isForest full h.1, htakes.related full h.2⟩

/-- **A turn leaves every account in its place.** -/
theorem exists_same_referrer_outcome (quiet : host.Quiet) {store : Store} {L : Ledger}
    (keeps : (World.ofStore store).Keeps L) (inStep : L.InStep) (turn : Turn) :
    ∃ L', (World.ofStore (turn.outcome host store).2.store).Keeps L' ∧ L'.InStep ∧
      ∀ a p, (∃ r, L.records.get? a = some r ∧ r.referrer = p) →
        ∃ r, L'.records.get? a = some r ∧ r.referrer = p := by
  obtain ⟨L', hkeeps, hstep, ⟨-, rfl⟩ | ⟨-, ms, -, hpath⟩⟩ := keeps_outcome quiet keeps inStep turn
  · exact ⟨L', hkeeps, hstep, fun _ _ h => h⟩
  · refine ⟨L', hkeeps, hstep, fun a p h => ?_⟩
    have hkept := hpath.invariant
      (I := fun M => Roster.Full M.records ∧ ∃ r, M.records.get? a = some r ∧ r.referrer = p)
      (fun m _ _ _ htakes hM => ⟨htakes.full hM.1, htakes.exists_same_referrer hM.1 hM.2⟩)
      ⟨keeps.stored.full, h⟩
    exact hkept.2

/-- **A history leaves every account in its place**, from any point of it on. -/
theorem exists_same_referrer_after (quiet : host.Quiet) (later earlier : List Turn) {a : AccountId}
    {r : Record} (found : (World.ofStore (after host earlier)).run (Program.record? a) =
      (.ok (some r), World.ofStore (after host earlier))) :
    ∃ L, (World.ofStore (after host (later ++ earlier))).Keeps L ∧ L.InStep ∧
      ∃ r', L.records.get? a = some r' ∧ r'.referrer = r.referrer := by
  induction later with
  | nil =>
      obtain ⟨L, hkeeps, hstep, -, -⟩ := exists_related_after quiet earlier
      refine ⟨L, hkeeps, hstep, r, ?_, rfl⟩
      exact Except.ok.inj (Prod.mk.inj ((hkeeps.run_record? a).symm.trans found)).1
  | cons turn later ih =>
      obtain ⟨L, hkeeps, hstep, hfound⟩ := ih
      obtain ⟨L', hkeeps', hstep', hsame⟩ := exists_same_referrer_outcome quiet hkeeps hstep turn
      exact ⟨L', hkeeps', hstep', hsame a r.referrer hfound⟩

/-- **Kinship after every history**: records and relations agree and referrers lead up to roots, and
every account that has been in the forest at an earlier point of the history is still in its place. -/
theorem kinship_after (quiet : host.Quiet) (later earlier : List Turn) :
    ∃ m : Roster, (after host (later ++ earlier)).Kinship m ∧
      ∀ a r, (World.ofStore (after host earlier)).run (Program.record? a) =
          (.ok (some r), World.ofStore (after host earlier)) →
        ∃ r', m.get? a = some r' ∧ r'.referrer = r.referrer := by
  obtain ⟨L, hkeeps, -, hforest, hrelated⟩ := exists_related_after quiet (later ++ earlier)
  refine ⟨L.records, hkeeps.kinship hforest hrelated, fun a r hfound => ?_⟩
  obtain ⟨L', hkeeps', -, hsame⟩ := exists_same_referrer_after quiet later earlier hfound
  have hrecord : L.records.get? a = L'.records.get? a :=
    Except.ok.inj (Prod.mk.inj ((hkeeps.run_record? a).symm.trans (hkeeps'.run_record? a))).1
  rw [hrecord]
  exact hsame

/-- The small history keeps the forest, the root stays where it has been since it entered, and at the end
it has the referral it was given. -/
theorem kinship_after_small :
    Host.standalone.Quiet ∧ (∃ m : Roster,
      (after Host.standalone (SmallHistory.turns.take 3 ++ SmallHistory.turns.drop 3)).Kinship m ∧
      ∀ a r, (World.ofStore (after Host.standalone (SmallHistory.turns.drop 3))).run
            (Program.record? a) =
          (.ok (some r), World.ofStore (after Host.standalone (SmallHistory.turns.drop 3))) →
        ∃ r', m.get? a = some r' ∧ r'.referrer = r.referrer) ∧
      ((World.ofStore (after Host.standalone (SmallHistory.turns.take 3 ++ SmallHistory.turns.drop 3))).run
        (Forest.children SmallHistory.root)).1.toOption = some [SmallHistory.leaf] :=
  ⟨Host.quiet_standalone,
    kinship_after Host.quiet_standalone (SmallHistory.turns.take 3) (SmallHistory.turns.drop 3),
    by decide +kernel⟩

end Forest

end ReferralForest

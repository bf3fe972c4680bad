import ReferralForest.Proofs.Cascade.Succeeding
import ReferralForest.Proofs.Forest.Attaining
import ReferralForest.Proofs.Forest.Export

/-!
# Reading a Forest In

The document of a layout that covers a forest is accepted and brings in just that forest: everybody at
the same place and with the same tier and schedule, but with no stake. Each step of an import adds one
account that is not there yet, since nobody stands in the layout twice and every group comes after its
referrer. The downgrades come last, and of several for one account the last one stays.

## Main definitions

* `Record.bare`, `Record.outline` — a record as it is brought in, and once its downgrade is scheduled.
* `Genesis.lastDowngrade?` — the time of the last downgrade of a list that is for an address.
* `Layout.Proper` — the layouts that can be read in, one account at a time.
* `Ledger.Planted` — a ledger that holds part of a document.
* `Host.Accepts` — the codec accepts the address of an account.

## Main statements

* `Layout.Covers.validate_genesis` — the document of a layout is valid.
* `Cascade.exists_yields_importDowngrades` — scheduling the downgrades of a document goes through.
* `Forest.attains_importParts` — reading in a layout, with whatever downgrades.
* `Forest.attains_importGenesis` — reading in the document of a layout brings in the forest.
-/

namespace ReferralForest

open Roster

/-- A record as it is brought in from a document, before its downgrade is scheduled. -/
def Record.bare (r : Record) : Record := .fresh r.referrer r.status

/-- All that a document says about an account: its place, its tier and its scheduled downgrade. -/
def Record.outline (r : Record) : Record := { r.bare with downgradeAt := r.downgradeAt }

/-- The name of an account is not empty. -/
theorem AccountId.text_ne_empty (a : AccountId) : a.text ≠ "" := by
  intro hempty
  have hsize := a.size_pos
  rw [hempty] at hsize
  exact absurd hsize (by decide)

/-- Whether the codec of the host accepts the address of an account. -/
def Host.Accepts (host : Host) (a : AccountId) : Prop := ∃ bytes, host.codec.toBytes a.text = .ok bytes

/-- An accepted address is read as the account whose address it is. -/
theorem Host.Accepts.parseAddress {host : Host} {a : AccountId} (h : host.Accepts a) :
    host.parseAddress a.text = .ok a := by
  obtain ⟨bytes, hbytes⟩ := h
  rw [Host.parseAddress, hbytes]
  simp [Except.mapError]

/-! ### Lists of records -/

/-- Where no account stands twice, none does in the first part. -/
theorem nodup_map_fst_left {l k : List (AccountId × Record)} (h : ((l ++ k).map Prod.fst).Nodup) :
    (l.map Prod.fst).Nodup := by
  rw [List.map_append] at h
  exact h.of_append_left

/-- Some accounts as they are brought in. -/
def bareList (l : List (AccountId × Record)) : List (AccountId × Record) :=
  l.map (Prod.map id Record.bare)

/-- The accounts are the same. -/
@[simp] theorem map_fst_bareList (l : List (AccountId × Record)) :
    (bareList l).map Prod.fst = l.map Prod.fst := by
  simp [bareList, Function.comp_def]

/-- One more account is brought in. -/
theorem bareList_concat (l : List (AccountId × Record)) (e : AccountId × Record) :
    bareList (l ++ [e]) = bareList l ++ [(e.1, e.2.bare)] := by
  simp [bareList, Prod.map]

/-- The records are full. -/
theorem length_of_mem_bareList {l : List (AccountId × Record)} {e : AccountId × Record}
    (he : e ∈ bareList l) : e.2.generations.length = generationCount := by
  obtain ⟨d, -, rfl⟩ := List.mem_map.mp he
  exact Record.length_fresh d.2.referrer d.2.status

namespace Roster.ConsistsOf

variable {m : Roster} {l l' : List (AccountId × Record)} {a : AccountId} {r : Record}

/-- Nothing is listed. -/
theorem empty : ConsistsOf .empty [] := by
  intro e
  simp

/-- Accounts that are not listed have no record. -/
theorem get?_eq_none_iff (h : m.ConsistsOf l) : m.get? a = none ↔ a ∉ l.map Prod.fst := by
  rw [← not_iff_not, not_not, ← ne_eq, Option.ne_none_iff_exists', List.mem_map]
  constructor
  · rintro ⟨r, hr⟩
    exact ⟨(a, r), (h (a, r)).mpr hr, rfl⟩
  · rintro ⟨e, he, rfl⟩
    exact ⟨e.2, (h e).mp he⟩

/-- All records are full if the listed ones are. -/
theorem full (h : m.ConsistsOf l) (hl : ∀ e ∈ l, e.2.generations.length = generationCount) : Full m :=
  fun a r hr => hl (a, r) ((h (a, r)).mpr hr)

/-- **A record is put** in the place of what is listed for its account, if anything is. -/
theorem insert {q : Record} {k : List (AccountId × Record)} (h : m.ConsistsOf (l ++ k ++ l'))
    (only : ∀ e ∈ k, e.1 = a) (nodup : ((l ++ (a, q) :: l').map Prod.fst).Nodup) :
    ConsistsOf (m.insert a q) (l ++ (a, q) :: l') := by
  classical
  have hothers : ∀ e ∈ l ++ l', e.1 ≠ a := by
    rintro e he rfl
    rw [List.map_append, List.map_cons, List.nodup_middle, List.nodup_cons, ← List.map_append] at nodup
    have hlisted : e.1 ∈ (l ++ l').map Prod.fst := List.mem_map_of_mem he
    exact nodup.1 hlisted
  intro e
  rw [List.mem_append, List.mem_cons, SortedMap.get?_insert]
  have hbefore := h e
  rw [List.mem_append, List.mem_append] at hbefore
  by_cases hea : e.1 = a
  · have hnot : e ∉ l ++ l' := fun he => hothers e he hea
    rw [List.mem_append, not_or] at hnot
    rw [if_pos hea, Option.some.injEq, or_iff_right hnot.1, or_iff_left hnot.2, Prod.ext_iff]
    exact ⟨fun heq => heq.2.symm, fun heq => ⟨hea, heq.symm⟩⟩
  · have hnew : e ≠ (a, q) := fun heq => hea (congrArg Prod.fst heq)
    have hold : e ∉ k := fun hk => hea (only e hk)
    rw [if_neg hea, ← hbefore, or_iff_right hnew, or_iff_left hold]

/-- **All records are changed** alike. -/
theorem map {m' : Roster} {f : AccountId → Record → Record} (h : m.ConsistsOf l)
    (changed : ∀ a, m'.get? a = (m.get? a).map (f a)) :
    m'.ConsistsOf (l.map fun e => (e.1, f e.1 e.2)) := by
  intro e
  rw [changed, Option.map_eq_some_iff, List.mem_map]
  constructor
  · rintro ⟨d, hd, rfl⟩
    exact ⟨d.2, (h d).mp hd, rfl⟩
  · rintro ⟨r, hr, heq⟩
    exact ⟨(e.1, r), (h (e.1, r)).mpr hr, Prod.ext rfl heq⟩

end Roster.ConsistsOf

/-! ### Validity -/

namespace Layout

open Forest

/-- The addresses of some accounts, the last one first. -/
def addresses (l : List (AccountId × Record)) : List String := (l.map fun e => e.1.text).reverse

/-- An account is listed under its address just if it is listed. -/
theorem mem_addresses_iff {l : List (AccountId × Record)} {a : AccountId} :
    a.text ∈ addresses l ↔ a ∈ l.map Prod.fst := by
  rw [addresses, List.mem_reverse, List.mem_map, List.mem_map]
  exact exists_congr fun e => and_congr_right fun _ => ⟨AccountId.ext, congrArg AccountId.text⟩

/-- **Members are declared** after others if nobody is declared twice. -/
theorem declare_members {placed l : List (AccountId × Record)}
    (nodup : ((placed ++ l).map Prod.fst).Nodup) :
    Genesis.declare (addresses placed) (l.map memberOf) = .ok (addresses (placed ++ l)) := by
  induction l generalizing placed with
  | nil => rw [List.append_nil]; rfl
  | cons e rest ih =>
      have hfresh : (memberOf e).address ∉ addresses placed := by
        rw [List.map_append, List.nodup_append'] at nodup
        exact fun he => nodup.2.2 (mem_addresses_iff.mp he) List.mem_cons_self
      have hnext : (memberOf e).address :: addresses placed = addresses (placed ++ [e]) := by
        simp [addresses, memberOf]
      rw [List.append_cons] at nodup ⊢
      rw [List.map_cons, Genesis.declare, if_neg hfresh, hnext, ih nodup]

/-- The referrer of a group is given. -/
theorem not_isEmpty_referrer (g : AccountId × List (AccountId × Record)) :
    ¬(groupOf g).referrer.isEmpty = true :=
  fun hempty => g.1.text_ne_empty (String.isEmpty_iff.mp hempty)

/-- **Groups are declared** after their referrers. -/
theorem declareGroups_groups {placed : List (AccountId × Record)}
    {gs : List (AccountId × List (AccountId × Record))} (ordered : Ordered placed gs)
    (nodup : ((placed ++ gs.flatMap Prod.snd).map Prod.fst).Nodup) :
    Genesis.declareGroups (addresses placed) (gs.map groupOf) =
      .ok (addresses (placed ++ gs.flatMap Prod.snd)) := by
  induction gs generalizing placed with
  | nil => rw [List.flatMap_nil, List.append_nil]; rfl
  | cons g rest ih =>
      obtain ⟨⟨r, hr⟩, -, hrest⟩ := ordered
      have hplaced : (groupOf g).referrer ∈ addresses placed :=
        mem_addresses_iff.mpr (List.mem_map_of_mem hr)
      rw [List.flatMap_cons, ← List.append_assoc] at nodup ⊢
      have hmembers := nodup_map_fst_left nodup
      rw [List.map_cons, Genesis.declareGroups, if_neg (not_isEmpty_referrer g), if_pos hplaced,
        groupOf, declare_members hmembers]
      exact ih hrest nodup

/-- **The layouts that can be read in**, one account at a time: whoever is next is not there yet, and
the one above is. -/
structure Proper (o : Layout) : Prop where
  /-- Nobody stands in it twice. -/
  nodup : (o.members.map Prod.fst).Nodup
  /-- The roots are roots. -/
  roots : ∀ e ∈ o.roots, e.2.referrer = none
  /-- The groups come after their referrers. -/
  ordered : Ordered o.roots o.groups

/-- A layout that covers a forest is proper. -/
theorem Covers.proper {o : Layout} {m : Roster} (h : o.Covers m) : o.Proper :=
  ⟨h.nodup, h.roots, h.ordered⟩

/-- No root stands in a layout twice. -/
theorem Proper.nodup_roots {o : Layout} (h : o.Proper) : (([] ++ o.roots).map Prod.fst).Nodup :=
  nodup_map_fst_left h.nodup

/-- **The document of a layout** is valid. -/
theorem Covers.validate_genesis {o : Layout} {m : Roster} (h : o.Covers m) {p : Params}
    (valid : p.validate = .ok ()) : (o.genesis p).validate = .ok () := by
  have hroots : Genesis.declare [] (o.roots.map memberOf) = .ok (addresses o.roots) :=
    declare_members h.proper.nodup_roots
  have hgroups : Genesis.declareGroups (addresses o.roots) (o.groups.map groupOf) =
      .ok (addresses o.members) := declareGroups_groups h.ordered h.nodup
  have hdowngrades : (o.members.filterMap pendingOf).find? (fun d => d.account ∉ addresses o.members) =
      none := by
    rw [List.find?_eq_none]
    intro d hd
    obtain ⟨e, he, hpending⟩ := List.mem_filterMap.mp hd
    obtain ⟨t, -, rfl⟩ := Option.map_eq_some_iff.mp hpending
    simpa using mem_addresses_iff.mpr (List.mem_map_of_mem he)
  simp only [Genesis.validate, genesis, valid, hroots, hgroups, hdowngrades, bind, Except.bind]

end Layout

/-! ### Downgrades -/

namespace Genesis

/-- **The time of the last downgrade** of a list that is for an address. -/
def lastDowngrade? (l : List PendingDowngrade) (address : String) : Option Timestamp :=
  ((l.filter (·.account = address)).getLast?).map PendingDowngrade.time

/-- A later downgrade goes before an earlier one. -/
theorem lastDowngrade?_cons (d : PendingDowngrade) (l : List PendingDowngrade) (address : String) :
    lastDowngrade? (d :: l) address =
      (lastDowngrade? l address).or (if d.account = address then some d.time else none) := by
  rw [lastDowngrade?, lastDowngrade?, List.filter_cons]
  by_cases hd : d.account = address
  · simp only [hd, decide_true, if_true, List.getLast?_cons, Option.map_some]
    cases (l.filter (·.account = address)).getLast? <;> rfl
  · simp [hd]

/-- Where no downgrade is for an address, none is the last. -/
theorem lastDowngrade?_eq_none {l : List PendingDowngrade} {address : String}
    (h : ∀ d ∈ l, d.account ≠ address) : lastDowngrade? l address = none := by
  rw [lastDowngrade?, List.filter_eq_nil_iff.mpr fun d hd => by simpa using h d hd]
  rfl

/-- The last downgrade for an address is one of the list. -/
theorem exists_of_lastDowngrade? {l : List PendingDowngrade} {address : String} {t : Timestamp}
    (h : lastDowngrade? l address = some t) : ∃ d ∈ l, d.account = address := by
  by_contra hnone
  push Not at hnone
  rw [lastDowngrade?_eq_none hnone] at h
  contradiction

/-- The last downgrade for an account among those of a list of records is its own, as no other record is of
that account. -/
theorem lastDowngrade?_pendingOf {l : List (AccountId × Record)} (nodup : (l.map Prod.fst).Nodup)
    {e : AccountId × Record} (he : e ∈ l) :
    lastDowngrade? (l.filterMap Layout.pendingOf) e.1.text = e.2.downgradeAt := by
  induction l with
  | nil => simp at he
  | cons d rest ih =>
      rw [List.map_cons, List.nodup_cons] at nodup
      have hcons : lastDowngrade? ((d :: rest).filterMap Layout.pendingOf) e.1.text =
          (lastDowngrade? (rest.filterMap Layout.pendingOf) e.1.text).or
            (if d.1.text = e.1.text then d.2.downgradeAt else none) := by
        cases hd : d.2.downgradeAt with
        | none => simp [Layout.pendingOf, hd]
        | some t =>
            rw [List.filterMap_cons_some (by rw [Layout.pendingOf, hd]; rfl), lastDowngrade?_cons]
      rw [hcons]
      rcases List.mem_cons.mp he with rfl | he
      · have hnone : lastDowngrade? (rest.filterMap Layout.pendingOf) e.1.text = none := by
          refine lastDowngrade?_eq_none fun p hp heq => nodup.1 ?_
          obtain ⟨f, hf, hpending⟩ := List.mem_filterMap.mp hp
          obtain ⟨t, -, rfl⟩ := Option.map_eq_some_iff.mp hpending
          exact AccountId.ext heq ▸ List.mem_map_of_mem hf
        rw [hnone, if_pos rfl, Option.none_or]
      · have hne : d.1.text ≠ e.1.text := fun heq =>
          nodup.1 (AccountId.ext heq ▸ List.mem_map_of_mem he)
        rw [ih nodup.2 he, if_neg hne, Option.or_none]

end Genesis

/-- A record whose downgrade is scheduled anew, if there is a time for it. -/
def Record.scheduledFor (time : Option Timestamp) (r : Record) : Record :=
  { r with downgradeAt := time.or r.downgradeAt }

namespace Cascade

open Genesis

variable {host : Host} {D : Draft}

/-- **Scheduling downgrades from a document** goes through if they are for accounts of the forest, and
gives each of them the last time there is for it. -/
theorem exists_yields_importDowngrades {l : List PendingDowngrade} (full : Full D.records)
    (listed : ∀ d ∈ l, ∃ a, host.Accepts a ∧ a.text = d.account ∧ D.records.get? a ≠ none) :
    ∃ D', (importDowngrades host l).Yields D () D' ∧
      D'.params = D.params ∧ D'.callbacks = D.callbacks ∧
      ∀ a, D'.records.get? a =
        (D.records.get? a).map (Record.scheduledFor (lastDowngrade? l a.text)) := by
  classical
  induction l generalizing D with
  | nil =>
      refine ⟨D, yields_done.mpr ⟨rfl, rfl⟩, rfl, rfl, fun a => ?_⟩
      exact Option.map_id'.symm
  | cons d rest ih =>
      obtain ⟨a, haccepted, haccount, hplaced⟩ := listed d List.mem_cons_self
      obtain ⟨r, hr⟩ := Option.ne_none_iff_exists'.mp hplaced
      let D₁ := D.withLedger ((D.toLedger.unschedule r.downgradeAt a).enqueue d.time a)
      let D₂ := D₁.withLedger (D₁.toLedger.put a { r with downgradeAt := some d.time })
      have hupdate : (update none a (rescheduled d.time a)).Yields D (some ()) D₂ :=
        yields_update_unchecked full.padded hr (yields_rescheduled.mpr ⟨rfl, rfl⟩)
      have hrecords : D₂.records = D.records.insert a { r with downgradeAt := some d.time } := by
        simp [D₂, D₁, Ledger.put, Ledger.enqueue]
      have hfull : Full D₂.records := hrecords ▸ full.insert (full a r hr)
      obtain ⟨D', hcourse, hparams, hcallbacks, hafter⟩ := ih hfull fun p hp => by
        obtain ⟨b, hb, hbaccount, hbplaced⟩ := listed p (List.mem_cons_of_mem _ hp)
        refine ⟨b, hb, hbaccount, ?_⟩
        rw [hrecords, SortedMap.get?_insert]
        split
        · simp
        · exact hbplaced
      have hkept : D₂.params = D.params := D.toLedger.params_unschedule r.downgradeAt a
      refine ⟨D', ?_, hparams.trans hkept, hcallbacks, fun b => ?_⟩
      · exact yields_bind.mpr ⟨a, D, yields_ofExcept.mpr ⟨haccount ▸ haccepted.parseAddress, rfl⟩,
          yields_bind.mpr ⟨some (), D₂, hupdate, hcourse⟩⟩
      · rw [hafter, hrecords, SortedMap.get?_insert, lastDowngrade?_cons]
        by_cases hb : b = a
        · subst hb
          rw [if_pos rfl, hr, if_pos haccount.symm]
          cases lastDowngrade? rest b.text <;> rfl
        · have hne : d.account ≠ b.text := fun heq => hb (AccountId.ext (heq.symm.trans haccount.symm))
          rw [if_neg hb, if_neg hne, Option.or_none]

end Cascade

/-! ### Programs -/

/-- A ledger with the parameters of a document and some of its accounts. -/
structure Ledger.Planted (L : Ledger) (p : Params) (l : List (AccountId × Record)) : Prop where
  /-- The parameters are stored. -/
  params : L.params = some p
  /-- The accounts are in the forest, and no others. -/
  consists : L.records.ConsistsOf (bareList l)

namespace Ledger.Planted

variable {L : Ledger} {p : Params} {l : List (AccountId × Record)} {e : AccountId × Record}

/-- All records are full. -/
theorem full (h : L.Planted p l) : Full L.records := h.consists.full fun _ => length_of_mem_bareList

/-- Who has no record. -/
theorem get?_eq_none_iff (h : L.Planted p l) {a : AccountId} :
    L.records.get? a = none ↔ a ∉ l.map Prod.fst := by
  rw [h.consists.get?_eq_none_iff, map_fst_bareList]

/-- An account that follows has no record yet. -/
theorem fresh (h : L.Planted p l) (nodup : ((l ++ [e]).map Prod.fst).Nodup) :
    L.records.get? e.1 = none := by
  rw [List.map_append, List.nodup_append'] at nodup
  exact h.get?_eq_none_iff.mpr fun he => nodup.2.2 he List.mem_cons_self

/-- **One more account** is planted. -/
theorem put (h : L.Planted p l) (nodup : ((l ++ [e]).map Prod.fst).Nodup) :
    (L.put e.1 e.2.bare).Planted p (l ++ [e]) := by
  refine ⟨h.params, ?_⟩
  rw [bareList_concat]
  refine ConsistsOf.insert (k := []) ?_ (by simp) ?_
  · rw [List.append_nil, List.append_nil]
    exact h.consists
  · rwa [← bareList_concat, map_fst_bareList]

end Ledger.Planted

namespace Forest

open Program Layout

variable {host : Host} {L : Ledger} {p : Params} {placed l : List (AccountId × Record)}

/-- **Reading in a valid document** reads in its parts. -/
theorem attains_importGenesis_of_parts {g : Genesis} {post : Ledger → Prop}
    (valid : g.validate = .ok ()) (validParams : g.params.validate = .ok ())
    (parts : ∀ L : Ledger, L.Planted g.params [] →
      (importParts host (g.roots.getD []) g.groups g.downgrades).Attains L fun _ L' => post L') :
    (importGenesis host g).Attains .empty fun _ L' => post L' := by
  have hparams : (Program.setParams g.params).Attains .empty fun _ L' => L'.Planted g.params [] := by
    intro w hw
    obtain ⟨w', hrun, hw', -, -⟩ := hw.run_setParams validParams
    exact ⟨(), w', _, hrun, hw', rfl, ConsistsOf.empty⟩
  refine Attains.bind (attains_ofExcept valid) ?_
  rintro _ _ ⟨rfl, rfl⟩
  exact Attains.bind hparams fun _ L' hplanted => parts L' hplanted

section Members

variable (quiet : host.Quiet)
include quiet

/-- **Adding a root** that is not there. -/
theorem attains_addRoot {a : AccountId} {s : Status} (full : Full L.records)
    (fresh : L.records.get? a = none) :
    (addRoot host a s).Attains L fun _ L' => L' = L.put a (.fresh none s) := by
  refine Attains.bind (attains_hasRecord a) ?_
  rintro _ L ⟨rfl, rfl⟩
  rw [fresh]
  refine (attains_commit quiet (a := ()) (Cascade.yields_put.mpr rfl) (.inr rfl) ?_).mono
    fun _ _ h => h.2
  exact full.insert (Record.length_fresh _ _)

/-- **Adding a referral** that is not there, below an account that is. -/
theorem attains_importReferral {a c : AccountId} {s : Status} (full : Full L.records)
    (fresh : L.records.get? c = none) (placed : L.records.get? a ≠ none) :
    (importReferral host a c s).Attains L fun _ L' =>
      L' = (L.put c (.fresh (some a) s)).relate a c := by
  have hcheck : (checkPlacement a c).Attains L fun _ L' => L' = L := by
    refine Attains.bind (attains_hasRecord c) ?_
    rintro _ L ⟨rfl, rfl⟩
    rw [fresh]
    refine Attains.bind (attains_hasRecord a) ?_
    rintro _ L ⟨rfl, rfl⟩
    rw [Option.isSome_iff_ne_none.mpr placed]
    exact Attains.done rfl
  refine Attains.bind hcheck ?_
  rintro _ L rfl
  refine (attains_commit quiet (a := ()) (Cascade.yields_bind.mpr ⟨(), _,
    Cascade.yields_put.mpr rfl, Cascade.yields_relate.mpr rfl⟩) (.inr rfl) ?_).mono fun _ _ h => h.2
  exact full.insert (Record.length_fresh _ _)

/-- **Adding the roots** of a document. -/
theorem attains_importRoots (planted : L.Planted p placed)
    (nodup : ((placed ++ l).map Prod.fst).Nodup) (accepted : ∀ e ∈ l, host.Accepts e.1)
    (roots : ∀ e ∈ l, e.2.referrer = none) :
    (importRoots host (l.map memberOf)).Attains L fun _ L' => L'.Planted p (placed ++ l) := by
  induction l generalizing L placed with
  | nil => exact Attains.done (by rwa [List.append_nil])
  | cons e rest ih =>
      rw [List.append_cons] at nodup ⊢
      have hfirst := nodup_map_fst_left nodup
      have hfresh := planted.fresh hfirst
      refine Attains.bind (attains_ofExcept (accepted e List.mem_cons_self).parseAddress) ?_
      rintro _ L ⟨rfl, rfl⟩
      refine Attains.bind (attains_addRoot quiet planted.full hfresh) ?_
      rintro _ _ rfl
      have hput := planted.put hfirst
      rw [Record.bare, roots e List.mem_cons_self] at hput
      exact ih hput nodup (fun d hd => accepted d (List.mem_cons_of_mem _ hd))
        fun d hd => roots d (List.mem_cons_of_mem _ hd)

/-- **Adding the referrals** of an account that is in the forest. -/
theorem attains_importReferrals {a : AccountId} (planted : L.Planted p placed)
    (nodup : ((placed ++ l).map Prod.fst).Nodup) (accepted : ∀ e ∈ l, host.Accepts e.1)
    (above : a ∈ placed.map Prod.fst) (below : ∀ e ∈ l, e.2.referrer = some a) :
    (importReferrals host a (l.map memberOf)).Attains L fun _ L' => L'.Planted p (placed ++ l) := by
  induction l generalizing L placed with
  | nil => exact Attains.done (by rwa [List.append_nil])
  | cons e rest ih =>
      rw [List.append_cons] at nodup ⊢
      have hfirst := nodup_map_fst_left nodup
      have hparent : L.records.get? a ≠ none := fun hnone => planted.get?_eq_none_iff.mp hnone above
      have habove : a ∈ (placed ++ [e]).map Prod.fst := by
        rw [List.map_append]
        exact List.mem_append_left _ above
      have hput := planted.put hfirst
      have hrelated : ((L.put e.1 e.2.bare).relate a e.1).Planted p (placed ++ [e]) :=
        ⟨hput.params, hput.consists⟩
      rw [Record.bare, below e List.mem_cons_self] at hrelated
      refine Attains.bind (attains_ofExcept (accepted e List.mem_cons_self).parseAddress) ?_
      rintro _ L ⟨rfl, rfl⟩
      refine Attains.bind (attains_importReferral quiet planted.full (planted.fresh hfirst)
        hparent) ?_
      rintro _ _ rfl
      exact ih hrelated nodup (fun d hd => accepted d (List.mem_cons_of_mem _ hd)) habove
        fun d hd => below d (List.mem_cons_of_mem _ hd)

/-- **Adding the groups** of a document, each after its referrer. -/
theorem attains_importGroups {gs : List (AccountId × List (AccountId × Record))}
    (planted : L.Planted p placed) (ordered : Ordered placed gs)
    (nodup : ((placed ++ gs.flatMap Prod.snd).map Prod.fst).Nodup)
    (accepted : ∀ e ∈ placed ++ gs.flatMap Prod.snd, host.Accepts e.1) :
    (importGroups host (gs.map groupOf)).Attains L fun _ L' =>
      L'.Planted p (placed ++ gs.flatMap Prod.snd) := by
  induction gs generalizing L placed with
  | nil => exact Attains.done (by rwa [List.flatMap_nil, List.append_nil])
  | cons g rest ih =>
      obtain ⟨⟨r, hr⟩, hbelow, hrest⟩ := ordered
      rw [List.flatMap_cons, ← List.append_assoc] at nodup accepted ⊢
      have hgroup := nodup_map_fst_left nodup
      have hmembers : ∀ e ∈ g.2, host.Accepts e.1 := fun e he =>
        accepted e (List.mem_append_left _ (List.mem_append_right _ he))
      have hreferrer : host.Accepts g.1 :=
        accepted (g.1, r) (List.mem_append_left _ (List.mem_append_left _ hr))
      rw [List.map_cons, importGroups]
      dsimp only
      rw [if_neg (not_isEmpty_referrer g)]
      refine Attains.bind (attains_ofExcept hreferrer.parseAddress) ?_
      rintro _ L ⟨rfl, rfl⟩
      refine Attains.bind (attains_importReferrals quiet planted hgroup hmembers
        (List.mem_map_of_mem hr) hbelow) ?_
      exact fun _ L' hplanted => ih hplanted hrest nodup accepted

/-- **Reading in a layout** brings in its accounts, each with the last downgrade there is for it. -/
theorem attains_importParts {o : Layout} {d : List PendingDowngrade} (proper : o.Proper)
    (planted : L.Planted p []) (accepted : ∀ e ∈ o.members, host.Accepts e.1)
    (listed : ∀ q ∈ d, ∃ e ∈ o.members, e.1.text = q.account) :
    (importParts host (o.roots.map memberOf) (o.groups.map groupOf) d).Attains L fun _ L' =>
      L'.params = some p ∧ L'.records.ConsistsOf (o.members.map fun e =>
        (e.1, e.2.bare.scheduledFor (Genesis.lastDowngrade? d e.1.text))) := by
  refine Attains.bind (attains_importRoots quiet planted proper.nodup_roots
    (fun e he => accepted e (List.mem_append_left _ he)) proper.roots) fun _ L₁ h₁ => ?_
  refine Attains.bind (attains_importGroups quiet h₁ proper.ordered proper.nodup accepted)
    fun _ L₂ h₂ => ?_
  have h₂ : L₂.Planted p o.members := h₂
  have hlisted : ∀ q ∈ d, ∃ a, host.Accepts a ∧ a.text = q.account ∧ L₂.records.get? a ≠ none := by
    intro q hq
    obtain ⟨e, he, haccount⟩ := listed q hq
    refine ⟨e.1, accepted e he, haccount, fun hnone => ?_⟩
    exact h₂.get?_eq_none_iff.mp hnone (List.mem_map_of_mem he)
  obtain ⟨D, hcourse, hparams, huntold, hafter⟩ :=
    Cascade.exists_yields_importDowngrades (D := L₂.draft) h₂.full hlisted
  have hnone : D.callbacks.toList = [] := by
    rw [huntold]
    rfl
  have hconsists := h₂.consists.map hafter
  rw [bareList, List.map_map] at hconsists
  refine (attains_commit quiet hcourse (.inr hnone) (hconsists.full fun e he => ?_)).mono ?_
  · obtain ⟨c, -, rfl⟩ := List.mem_map.mp he
    exact Record.length_fresh c.2.referrer c.2.status
  · rintro _ _ ⟨-, rfl⟩
    exact ⟨hparams.trans h₂.params, hconsists⟩

/-- **Reading in the document of a layout** brings in the forest it covers. -/
theorem attains_importGenesis {o : Layout} {m : Roster} (covers : o.Covers m)
    (valid : p.validate = .ok ()) (accepted : ∀ e ∈ o.members, host.Accepts e.1) :
    (importGenesis host (o.genesis p)).Attains .empty fun _ L' =>
      L'.params = some p ∧ ∀ a, L'.records.get? a = (m.get? a).map Record.outline := by
  refine attains_importGenesis_of_parts (covers.validate_genesis valid) valid fun L planted => ?_
  have hlisted : ∀ q ∈ o.members.filterMap pendingOf, ∃ e ∈ o.members, e.1.text = q.account := by
    intro q hq
    obtain ⟨e, he, hpending⟩ := List.mem_filterMap.mp hq
    obtain ⟨t, -, rfl⟩ := Option.map_eq_some_iff.mp hpending
    exact ⟨e, he, rfl⟩
  refine (attains_importParts quiet covers.proper planted accepted hlisted).mono ?_
  rintro _ L' ⟨hparams, hconsists⟩
  have houtlined : L'.records.ConsistsOf (o.members.map fun e => (e.1, e.2.outline)) := by
    refine (List.map_congr_left fun e he => ?_) ▸ hconsists
    rw [Genesis.lastDowngrade?_pendingOf covers.nodup he]
    exact congrArg (fun t => (e.1, { e.2.bare with downgradeAt := t })) Option.or_none
  refine ⟨hparams, fun a => Option.ext fun q => ?_⟩
  rw [← houtlined (a, q), List.mem_map, Option.map_eq_some_iff]
  constructor
  · rintro ⟨e, he, heq⟩
    obtain ⟨rfl, rfl⟩ := Prod.mk.inj heq
    exact ⟨e.2, (covers.consists e).mp he, rfl⟩
  · rintro ⟨r, hr, rfl⟩
    exact ⟨(a, r), (covers.consists (a, r)).mpr hr, rfl⟩

end Members

end Forest

end ReferralForest

import ReferralForest.Proofs.Forest.Rebuilding
import ReferralForest.Proofs.Ledger.Unheard

/-!
# Documents and what they Declare

A document is checked on its own, by the addresses alone, before anything of it is read in. The check is
enough: the accounts of a valid document form a layout in which whoever is next is new and has a referrer
already, so every step of the import goes through, whether groups come back to a referrer, have no
members or reach several levels down. What is there afterwards is what the document declares, and nobody
has heard of it.

## Main definitions

* `Genesis.entries` — the members a document declares, with their referrers.
* `Host.Admits` — an address that can be read in.
* `Ledger.DeclaredBy` — a ledger as a document declares it.
* `Host.ReadsIn` — a document that a host reads in as it stands, or not at all.

## Main statements

* `Layout.exists_of_validate` — the accounts of a valid document form a proper layout.
* `Forest.unheard_importGenesis` — an import is the same for all hosts with a codec, and unheard.
* `Forest.readsIn` — every document is read in as it stands, or not at all.
-/

namespace ReferralForest

/-! ### What a document declares -/

/-- **The members a document declares**, each with the address of its referrer if it has one. -/
def Genesis.entries (g : Genesis) : List (Option String × Member) :=
  (g.roots.getD []).map (Prod.mk none) ++
    g.groups.flatMap fun group => group.referrals.map (Prod.mk (some group.referrer))

/-- **An address that can be read in**: the codec of the host accepts it, and it names an account. -/
def Host.Admits (host : Host) (address : String) : Prop :=
  (∃ bytes, host.codec.toBytes address = .ok bytes) ∧ ∃ a, AccountId.parse address = .ok a

/-- **A ledger as a document declares it**: it has the declared members, with their referrers and tiers
and without any stake, the relations of the declared groups, the parameters, and the last downgrade of
each account. -/
structure Ledger.DeclaredBy (L : Ledger) (g : Genesis) : Prop where
  /-- Every declared member is there. -/
  present : ∀ entry ∈ g.entries, ∃ a, a.text = entry.2.address ∧ L.records.get? a ≠ none
  /-- Nobody else is, and all are as declared. -/
  records : ∀ a r, L.records.get? a = some r ↔ ∃ p s,
    (p.map AccountId.text, ⟨a.text, s⟩) ∈ g.entries ∧
      r = { Record.fresh p s with downgradeAt := Genesis.lastDowngrade? g.downgrades a.text }
  /-- The relations are those of the declared groups. -/
  relations : ∀ p c, (p, c) ∈ L.relations ↔ ∃ s, (some p.text, ⟨c.text, s⟩) ∈ g.entries
  /-- The queue has one entry for each account with a downgrade. -/
  queue : ∀ t a, (t, a) ∈ L.queue ↔ Genesis.lastDowngrade? g.downgrades a.text = some t
  /-- The parameters are those of the document. -/
  params : L.params = some g.params

/-! ### Valid documents -/

namespace Genesis

/-- The parts of the check of a document. -/
theorem exists_of_validate {g : Genesis} (h : g.validate = .ok ()) :
    ∃ roots seen seen', g.roots = some roots ∧ g.params.validate = .ok () ∧
      declare [] roots = .ok seen ∧ declareGroups seen g.groups = .ok seen' ∧
      ∀ d ∈ g.downgrades, d.account ∈ seen' := by
  rw [validate] at h
  cases hroots : g.roots with
  | none => simp [hroots] at h
  | some roots =>
      simp only [hroots, bind, Except.bind] at h
      split at h
      · contradiction
      next hparams =>
      split at h
      · contradiction
      next seen hseen =>
      split at h
      · contradiction
      next seen' hseen' =>
      split at h
      · contradiction
      next hfind =>
      refine ⟨roots, seen, seen', rfl, hparams, hseen, hseen', fun d hd => ?_⟩
      simpa using List.find?_eq_none.mp hfind d hd

end Genesis

namespace Layout

open Forest

/-- **Members that are declared** after others are new accounts, each once. -/
theorem exists_of_declare (p : Option AccountId) {placed : List (AccountId × Record)}
    {members : List Member} {seen : List String}
    (declared : Genesis.declare (addresses placed) members = .ok seen)
    (named : ∀ m ∈ members, ∃ a : AccountId, a.text = m.address)
    (nodup : (placed.map Prod.fst).Nodup) :
    ∃ l, members = l.map memberOf ∧ (∀ e ∈ l, e.2.referrer = p) ∧
      ((placed ++ l).map Prod.fst).Nodup ∧ seen = addresses (placed ++ l) := by
  induction members generalizing placed with
  | nil => exact ⟨[], rfl, by simp, by simpa using nodup, by simpa using (Except.ok.inj declared).symm⟩
  | cons m rest ih =>
      obtain ⟨a, ha⟩ := named m List.mem_cons_self
      obtain ⟨address, s⟩ := m
      obtain rfl : a.text = address := ha
      rw [Genesis.declare] at declared
      split at declared
      · contradiction
      next hfresh =>
          have hnext : a.text :: addresses placed = addresses (placed ++ [(a, .fresh p s)]) := by
            simp [addresses]
          have hnodup : ((placed ++ [(a, Record.fresh p s)]).map Prod.fst).Nodup := by
            rw [List.map_append, List.map_cons, List.map_nil, ← List.concat_eq_append,
              List.nodup_concat]
            exact ⟨fun hmem => hfresh (mem_addresses_iff.mpr hmem), nodup⟩
          rw [hnext] at declared
          obtain ⟨l, rfl, hreferrer, hlater, rfl⟩ :=
            ih declared (fun m hm => named m (List.mem_cons_of_mem _ hm)) hnodup
          refine ⟨(a, .fresh p s) :: l, rfl, ?_, ?_, ?_⟩
          · exact List.forall_mem_cons.mpr ⟨rfl, hreferrer⟩
          · rwa [List.append_cons]
          · rw [← List.append_cons]

/-- **Groups that are declared** come after their referrers, and their members are new accounts, each
once. -/
theorem exists_of_declareGroups {placed : List (AccountId × Record)} {groups : List Group}
    {seen : List String} (declared : Genesis.declareGroups (addresses placed) groups = .ok seen)
    (named : ∀ g ∈ groups, ∀ m ∈ g.referrals, ∃ a : AccountId, a.text = m.address)
    (nodup : (placed.map Prod.fst).Nodup) :
    ∃ gs, groups = gs.map groupOf ∧ Ordered placed gs ∧
      ((placed ++ gs.flatMap Prod.snd).map Prod.fst).Nodup ∧
      seen = addresses (placed ++ gs.flatMap Prod.snd) := by
  induction groups generalizing placed with
  | nil => exact ⟨[], rfl, trivial, by simpa using nodup, by simpa using (Except.ok.inj declared).symm⟩
  | cons g rest ih =>
      rw [Genesis.declareGroups] at declared
      split at declared
      · contradiction
      split at declared
      next hplaced =>
          obtain ⟨p, hp, hreferrer⟩ : ∃ p ∈ placed, p.1.text = g.referrer := by
            simpa [addresses] using hplaced
          simp only [bind, Except.bind] at declared
          split at declared
          · contradiction
          next seen₁ hmembers =>
              obtain ⟨l, hl, hbelow, hnodup, rfl⟩ := exists_of_declare (some p.1) hmembers
                (named g List.mem_cons_self) nodup
              obtain ⟨gs, rfl, hordered, hlater, rfl⟩ :=
                ih declared (fun g hg => named g (List.mem_cons_of_mem _ hg)) hnodup
              refine ⟨(p.1, l) :: gs, ?_, ⟨⟨p.2, hp⟩, hbelow, hordered⟩, ?_, ?_⟩
              · have hgroup : g = groupOf (p.1, l) := by
                  rw [groupOf, hreferrer, ← hl]
                rw [List.map_cons, ← hgroup]
              · rwa [List.flatMap_cons, ← List.append_assoc]
              · rw [List.flatMap_cons, ← List.append_assoc]
      next => contradiction

/-- The members of the groups are referrals of the accounts they come after. -/
theorem Ordered.referrer {placed : List (AccountId × Record)}
    {gs : List (AccountId × List (AccountId × Record))} (h : Ordered placed gs) :
    ∀ g ∈ gs, ∀ e ∈ g.2, e.2.referrer = some g.1 := by
  induction gs generalizing placed with
  | nil => simp
  | cons g rest ih =>
      obtain ⟨-, hbelow, hrest⟩ := h
      exact List.forall_mem_cons.mpr ⟨hbelow, ih hrest⟩

/-- An entry of a document for an account of a layout. -/
def entryOf (e : AccountId × Record) : Option String × Member :=
  (e.2.referrer.map AccountId.text, memberOf e)

/-- **The entries of the document** of a proper layout are those of its accounts. -/
theorem Proper.entries_eq {o : Layout} (h : o.Proper) {g : Genesis}
    (roots : g.roots = some (o.roots.map memberOf)) (groups : g.groups = o.groups.map groupOf) :
    g.entries = o.members.map entryOf := by
  rw [Genesis.entries, roots, groups, members, List.map_append]
  congr 1
  · rw [Option.getD_some, List.map_map]
    refine List.map_congr_left fun e he => ?_
    simp [entryOf, h.roots e he]
  · rw [List.flatMap_map, List.map_flatMap]
    refine List.flatMap_congr fun p hp => ?_
    rw [groupOf, List.map_map]
    refine List.map_congr_left fun e he => ?_
    simp [entryOf, h.ordered.referrer p hp e he]

/-- **The accounts of a valid document** form a proper layout, in which all downgrades are for somebody
who is there. -/
theorem exists_of_validate {g : Genesis} (valid : g.validate = .ok ())
    (named : ∀ entry ∈ g.entries, ∃ a : AccountId, a.text = entry.2.address) :
    ∃ o : Layout, o.Proper ∧ g.roots = some (o.roots.map memberOf) ∧
      g.groups = o.groups.map groupOf ∧ ∀ d ∈ g.downgrades, ∃ e ∈ o.members, e.1.text = d.account := by
  obtain ⟨roots, seen, seen', hroots, -, hdeclare, hgroups, hdowngrades⟩ :=
    Genesis.exists_of_validate valid
  have hnamedRoots : ∀ m ∈ roots, ∃ a : AccountId, a.text = m.address := by
    intro m hm
    refine named (none, m) (List.mem_append_left _ ?_)
    rw [hroots]
    exact List.mem_map_of_mem hm
  have hnamedGroups : ∀ p ∈ g.groups, ∀ m ∈ p.referrals, ∃ a : AccountId, a.text = m.address := by
    intro p hp m hm
    refine named (some p.referrer, m) (List.mem_append_right _ ?_)
    exact List.mem_flatMap.mpr ⟨p, hp, List.mem_map_of_mem hm⟩
  have hdeclare : Genesis.declare (addresses []) roots = .ok seen := hdeclare
  obtain ⟨l, rfl, hreferrer, hnodup, rfl⟩ := exists_of_declare none hdeclare hnamedRoots List.nodup_nil
  obtain ⟨gs, hgs, hordered, hlater, rfl⟩ := exists_of_declareGroups hgroups hnamedGroups hnodup
  refine ⟨⟨l, gs⟩, ⟨hlater, hreferrer, hordered⟩, hroots, hgs, fun d hd => ?_⟩
  exact List.mem_map.mp (List.mem_reverse.mp (hdowngrades d hd))

end Layout

/-! ### Imports and their listeners -/

namespace Cascade

/-- Putting an account into the queue in place of its entry is muted. -/
theorem muted_rescheduled (t : Timestamp) (a : AccountId) (r : Record) : (rescheduled t a r).Muted := by
  rw [rescheduled]
  cases r.downgradeAt with
  | none => exact Dialogue.Only.bind (muted_enqueue t a) fun _ => trivial
  | some s =>
      exact Dialogue.Only.bind (muted_dequeue s a) fun _ =>
        Dialogue.Only.bind (muted_enqueue t a) fun _ => trivial

/-- Scheduling downgrades from a document is muted. -/
theorem muted_importDowngrades (host : Host) (l : List PendingDowngrade) :
    (importDowngrades host l).Muted := by
  induction l with
  | nil => trivial
  | cons d rest ih =>
      refine Dialogue.Only.bind (Dialogue.only_ofExcept _ _) fun a => ?_
      have hupdate : (update none a (rescheduled d.time a)).Muted :=
        muted_update (muted_rescheduled d.time a)
      exact Dialogue.Only.bind hupdate fun _ => ih

end Cascade

namespace Host

variable {host host' : Host}

/-- The codec alone decides what an address is. -/
theorem parseAddress_congr (same : host.codec = host'.codec) :
    host.parseAddress = host'.parseAddress := by
  funext text
  rw [parseAddress, parseAddress, same]

/-- An address that can be read in is that of an account, which the codec accepts. -/
theorem Admits.exists_accepts {address : String} (h : host.Admits address) :
    ∃ a : AccountId, a.text = address ∧ host.Accepts a := by
  obtain ⟨⟨bytes, hbytes⟩, a, ha⟩ := h
  obtain rfl := AccountId.text_of_parse ha
  exact ⟨a, rfl, bytes, hbytes⟩

end Host

namespace Forest

open Program Layout

variable {host host' : Host}

section SameCodec

variable (same : host.codec = host'.codec)
include same

/-- Scheduling downgrades from a document is the same for all hosts with a codec. -/
theorem importDowngrades_congr (l : List PendingDowngrade) :
    Cascade.importDowngrades host l = Cascade.importDowngrades host' l := by
  induction l with
  | nil => rfl
  | cons d rest ih =>
      rw [Cascade.importDowngrades, Cascade.importDowngrades, ih, Host.parseAddress_congr same]

/-- Nothing is heard of adding the roots of a document. -/
theorem unheard_importRoots (l : List Member) :
    (importRoots host l).Unheard (importRoots host' l) := by
  induction l with
  | nil => exact Plain.unheard trivial
  | cons m rest ih =>
      rw [importRoots, importRoots, Host.parseAddress_congr same]
      refine Unheard.bind (plain_ofExcept _).unheard fun a => ?_
      refine Unheard.bind (Unheard.bind (plain_hasRecord a).unheard fun taken => ?_) fun _ => ih
      cases taken with
      | true => exact Plain.unheard trivial
      | false => exact (Cascade.muted_put a _).unheard_commit host host'

/-- Nothing is heard of adding the referrals of an account. -/
theorem unheard_importReferrals (p : AccountId) (l : List Member) :
    (importReferrals host p l).Unheard (importReferrals host' p l) := by
  induction l with
  | nil => exact Plain.unheard trivial
  | cons m rest ih =>
      rw [importReferrals, importReferrals, Host.parseAddress_congr same]
      refine Unheard.bind (plain_ofExcept _).unheard fun a => ?_
      have hcheck : (checkPlacement p a).Plain := by
        refine Dialogue.Only.bind (plain_hasRecord a) fun taken => ?_
        cases taken with
        | true => trivial
        | false =>
            refine Dialogue.Only.bind (plain_hasRecord p) fun placed => ?_
            cases placed <;> trivial
      refine Unheard.bind (Unheard.bind hcheck.unheard fun _ => ?_) fun _ => ih
      exact Cascade.Muted.unheard_commit
        (Dialogue.Only.bind (Cascade.muted_put a _) fun _ => Cascade.muted_relate p a) host host'

/-- Nothing is heard of adding the groups of a document. -/
theorem unheard_importGroups (l : List Group) :
    (importGroups host l).Unheard (importGroups host' l) := by
  induction l with
  | nil => exact Plain.unheard trivial
  | cons g rest ih =>
      rw [importGroups, importGroups, Host.parseAddress_congr same]
      dsimp only
      split
      · exact Plain.unheard trivial
      · refine Unheard.bind (plain_ofExcept _).unheard fun p => ?_
        exact Unheard.bind (unheard_importReferrals same p g.referrals) fun _ => ih

/-- **An import is the same for all hosts with a codec**, and nothing is heard of it. -/
theorem unheard_importGenesis (g : Genesis) :
    (importGenesis host g).Unheard (importGenesis host' g) := by
  refine Unheard.bind (plain_ofExcept _).unheard fun _ => ?_
  refine Unheard.bind (plain_setParams _).unheard fun _ => ?_
  refine Unheard.bind (unheard_importRoots same _) fun _ => ?_
  refine Unheard.bind (unheard_importGroups same _) fun _ => ?_
  rw [importDowngrades_congr same]
  exact (Cascade.muted_importDowngrades host' g.downgrades).unheard_commit host host'

end SameCodec

/-! ### Imports and their documents -/

section Declared

variable {L : Ledger} {o : Layout} {g : Genesis}

/-- The entry of an account in the document of a layout. -/
theorem mem_entries_iff (entries : g.entries = o.members.map entryOf) {p : Option AccountId}
    {a : AccountId} {s : Status} :
    (p.map AccountId.text, ⟨a.text, s⟩) ∈ g.entries ↔
      ∃ r, (a, r) ∈ o.members ∧ r.referrer = p ∧ r.status = s := by
  have hinjective : Function.Injective (Option.map AccountId.text) :=
    Option.map_injective fun _ _ => AccountId.ext
  rw [entries, List.mem_map]
  constructor
  · rintro ⟨e, he, heq⟩
    obtain ⟨hreferrer, hmember⟩ := Prod.mk.inj heq
    obtain ⟨haccount, hstatus⟩ := Member.mk.inj hmember
    obtain rfl := AccountId.ext haccount
    exact ⟨e.2, he, hinjective hreferrer, hstatus⟩
  · rintro ⟨r, hr, rfl, rfl⟩
    exact ⟨(a, r), hr, rfl⟩

/-- **A ledger of the accounts of a layout**, with their downgrades, is as the document of the layout
declares it. -/
theorem declaredBy_of_consists (entries : g.entries = o.members.map entryOf)
    (params : L.params = some g.params)
    (consists : L.records.ConsistsOf (o.members.map fun e =>
      (e.1, e.2.bare.scheduledFor (Genesis.lastDowngrade? g.downgrades e.1.text))))
    (inStep : L.InStep) (related : L.Related)
    (listed : ∀ d ∈ g.downgrades, ∃ e ∈ o.members, e.1.text = d.account) : L.DeclaredBy g := by
  have hrecords : ∀ a r, L.records.get? a = some r ↔ ∃ q, (a, q) ∈ o.members ∧
      r = { Record.fresh q.referrer q.status with
        downgradeAt := Genesis.lastDowngrade? g.downgrades a.text } := by
    intro a r
    rw [← consists (a, r), List.mem_map]
    constructor
    · rintro ⟨e, he, heq⟩
      obtain ⟨rfl, rfl⟩ := Prod.mk.inj heq
      exact ⟨e.2, he, congrArg (fun t => { e.2.bare with downgradeAt := t }) Option.or_none⟩
    · rintro ⟨q, hq, rfl⟩
      exact ⟨(a, q), hq,
        congrArg (fun t => (a, { q.bare with downgradeAt := t })) Option.or_none⟩
  refine ⟨fun entry hentry => ?_, fun a r => ?_, fun p c => ?_, fun t a => ?_, params⟩
  · rw [entries] at hentry
    obtain ⟨e, he, rfl⟩ := List.mem_map.mp hentry
    exact ⟨e.1, rfl, Option.ne_none_iff_exists'.mpr ⟨_, (hrecords e.1 _).mpr ⟨e.2, he, rfl⟩⟩⟩
  · rw [hrecords]
    constructor
    · rintro ⟨q, hq, rfl⟩
      exact ⟨q.referrer, q.status, (mem_entries_iff entries).mpr ⟨q, hq, rfl, rfl⟩, rfl⟩
    · rintro ⟨p, s, hentry, rfl⟩
      obtain ⟨q, hq, rfl, rfl⟩ := (mem_entries_iff entries).mp hentry
      exact ⟨q, hq, rfl⟩
  · rw [related p c, Roster.parentOf, Option.bind_eq_some_iff]
    constructor
    · rintro ⟨r, hr, hreferrer⟩
      obtain ⟨q, hq, rfl⟩ := (hrecords c r).mp hr
      exact ⟨q.status, (mem_entries_iff entries (p := some p)).mpr ⟨q, hq, hreferrer, rfl⟩⟩
    · rintro ⟨s, hentry⟩
      obtain ⟨q, hq, hreferrer, -⟩ := (mem_entries_iff entries (p := some p)).mp hentry
      exact ⟨_, (hrecords c _).mpr ⟨q, hq, rfl⟩, hreferrer⟩
  · rw [inStep t a]
    constructor
    · rintro ⟨r, hr, hscheduled⟩
      obtain ⟨q, -, rfl⟩ := (hrecords a r).mp hr
      exact hscheduled
    · intro hlast
      obtain ⟨d, hd, haccount⟩ := Genesis.exists_of_lastDowngrade? hlast
      obtain ⟨e, he, heq⟩ := listed d hd
      obtain rfl : e.1 = a := AccountId.ext (heq.trans haccount)
      exact ⟨_, (hrecords e.1 _).mpr ⟨e.2, he, rfl⟩, hlast⟩

end Declared

/-- **A valid document whose addresses can be read in** is read in as it stands. -/
theorem attains_importGenesis_of_valid (quiet : host.Quiet) {g : Genesis}
    (valid : g.validate = .ok ()) (admitted : ∀ entry ∈ g.entries, host.Admits entry.2.address) :
    (importGenesis host g).Attains .empty fun _ L' => L'.DeclaredBy g := by
  obtain ⟨-, -, -, -, hparams, -⟩ := Genesis.exists_of_validate valid
  obtain ⟨o, hproper, hroots, hgroups, hlisted⟩ := Layout.exists_of_validate valid fun entry he => by
    obtain ⟨a, ha, -⟩ := (admitted entry he).exists_accepts
    exact ⟨a, ha⟩
  have hentries := hproper.entries_eq hroots hgroups
  have haccepted : ∀ e ∈ o.members, host.Accepts e.1 := fun e he =>
    (admitted (entryOf e) (hentries ▸ List.mem_map_of_mem he)).1
  have hattains : (importGenesis host g).Attains .empty fun _ L' =>
      L'.params = some g.params ∧ L'.records.ConsistsOf (o.members.map fun e =>
        (e.1, e.2.bare.scheduledFor (Genesis.lastDowngrade? g.downgrades e.1.text))) := by
    refine attains_importGenesis_of_parts valid hparams fun L planted => ?_
    rw [hroots, hgroups]
    exact attains_importParts quiet hproper planted haccepted hlisted
  refine (hattains.and_leads (leads_importGenesis quiet g)).mono ?_
  rintro _ L' ⟨⟨hstored, hconsists⟩, himported⟩
  obtain ⟨hstep, -, hrelated⟩ := himported.invariant .empty .empty .empty
  exact declaredBy_of_consists hentries hstored hconsists hstep hrelated hlisted

end Forest

/-! ### Hosts that read documents -/

/-- **A document is read in as it stands, or not at all.** Where it is not valid, the import says what is
wrong with it and leaves everything as it was. No host hears of an import, and hosts with the same codec
do the same. A valid document whose addresses can be read in goes into an empty store, and what the store
keeps then is what the document declares. -/
structure Host.ReadsIn (host : Host) (g : Genesis) : Prop where
  /-- A document that is not valid is not read in. -/
  refused : ∀ e, g.validate = .error e → ∀ w : World,
    w.run (Forest.importGenesis host g) = (.error e, w)
  /-- No listener is called and nothing is told. -/
  unheard : ∀ host' : Host, host'.codec = host.codec → ∀ w : World,
    w.run (Forest.importGenesis host g) = w.run (Forest.importGenesis host' g) ∧
      (w.run (Forest.importGenesis host g)).2.log = w.log
  /-- A valid document is read in as it stands. -/
  declared : g.validate = .ok () → (∀ entry ∈ g.entries, host.Admits entry.2.address) →
    ∀ w : World, w.store.Unlimited → w.store.view = .empty →
      ∃ w' L, w.run (Forest.importGenesis host g) = (.ok (), w') ∧ w'.Keeps L ∧ L.DeclaredBy g

namespace Forest

/-- **Every document** is read in as it stands, or not at all. The host may have listeners that write, but
nothing is announced to them. -/
theorem readsIn (host : Host) (g : Genesis) : host.ReadsIn g where
  refused e invalid w := by
    have hfails : w.run (.ofExcept g.validate) = (.error e, w) := by rw [w.run_ofExcept, invalid]
    exact World.run_bind_of_error hfails _
  unheard _ same := unheard_importGenesis same.symm g
  declared valid admitted w free vacant := by
    have hkeeps : w.Keeps .empty := ⟨free, vacant ▸ Ledger.storedIn_empty⟩
    have hcodec : host.codec = host.deaf.codec := rfl
    have hdeaf := unheard_importGenesis hcodec g
    obtain ⟨_, w', L, hrun, hw', hdeclared⟩ :=
      attains_importGenesis_of_valid host.quiet_deaf valid admitted w hkeeps
    exact ⟨w', L, (hdeaf w).1.trans hrun, hw', hdeclared⟩

/-- A document in which one group comes back to a referrer and another has no members, and in which the
leaf is scheduled twice. -/
def smallDocument : Genesis where
  params := .default
  roots := some [⟨"root", .new⟩]
  groups := [⟨"root", [⟨"leaf", .leader⟩]⟩, ⟨"leaf", []⟩, ⟨"root", [⟨"twig", .new⟩]⟩]
  downgrades := [⟨"leaf", .leader, ⟨5⟩⟩, ⟨"leaf", .leader, ⟨9⟩⟩]

/-- The small document is read in, with the later downgrade of the leaf. -/
theorem readsIn_small :
    smallDocument.validate = .ok () ∧
      (∀ entry ∈ smallDocument.entries, Host.standalone.Admits entry.2.address) ∧
      ∃ w L, (World.ofStore .empty).run (importGenesis Host.standalone smallDocument) = (.ok (), w) ∧
        w.Keeps L ∧ L.DeclaredBy smallDocument ∧
        ∀ t, (t, SmallHistory.leaf) ∈ L.queue ↔ t = ⟨9⟩ := by
  have hvalid : smallDocument.validate = .ok () := by decide +kernel
  have hadmits : ∀ a : AccountId, Host.standalone.Admits a.text := fun a =>
    ⟨Host.accepts_standalone a, a, AccountId.parse_text a⟩
  have hadmitted : ∀ entry ∈ smallDocument.entries, Host.standalone.Admits entry.2.address := by
    let twig : AccountId := ⟨"twig", by decide, by decide⟩
    have hentries : smallDocument.entries = [(none, ⟨SmallHistory.root.text, .new⟩),
        (some "root", ⟨SmallHistory.leaf.text, .leader⟩), (some "root", ⟨twig.text, .new⟩)] := rfl
    rw [hentries]
    simp only [List.forall_mem_cons]
    exact ⟨hadmits SmallHistory.root, hadmits SmallHistory.leaf, hadmits twig, nofun⟩
  obtain ⟨w, L, hrun, hkeeps, hdeclared⟩ := (readsIn Host.standalone smallDocument).declared hvalid
    hadmitted (World.ofStore .empty) rfl rfl
  refine ⟨hvalid, hadmitted, w, L, hrun, hkeeps, hdeclared, fun t => ?_⟩
  rw [hdeclared.queue]
  have hlast : Genesis.lastDowngrade? smallDocument.downgrades SmallHistory.leaf.text = some ⟨9⟩ := by
    decide +kernel
  rw [hlast, Option.some.injEq, eq_comm]

end Forest

end ReferralForest

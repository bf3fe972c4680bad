import ReferralForest.Proofs.Forest.Declaring

/-!
# Scheduled Accounts

An account that loses a tier because its schedule is due is checked at once, and might climb back in the
same breath. It does not: what it wants for the tier it loses it wants afterwards too. An account that was
put on notice fails the requirement of its tier. One that a document schedules may have any tier, the
unset one among them, but it is new and has nothing, so it fails the requirement of every tier above the
lowest.

## Main definitions

* `Status.demoted` — the tier that is left of a tier.
* `Record.Wanting` — a record that will not climb back.
* `Operation.Ordinary` — the operations after which every record is like that.

## Main statements

* `Forest.leads_importGenesis_new` — a document schedules new accounts only.
* `Forest.exists_wanting` — after every history of ordinary operations no account will climb back.
-/

namespace ReferralForest

/-! ### Records -/

/-- **The tier that is left of a tier** when one is lost: the tier below, but nothing below the lowest
earned one, to which the unset tier comes as well. -/
def Status.demoted (s : Status) : Status := s.prev?.getD .new

/-- **A record that will not climb back**: if it is scheduled, it fails the requirement of the tier next to
the one it will be left with. -/
def Record.Wanting (r : Record) : Prop :=
  r.downgradeAt ≠ none → ∀ t, r.status.demoted.next? = some t → t.metBy r = false

/-- Whoever fails the requirement of his tier would climb back to that tier. -/
theorem Status.next?_demoted {s : Status} {r : Record} (h : s.metBy r = false) :
    s.demoted.next? = some s := by
  cases s with
  | unspecified | new => contradiction
  | _ => rfl

/-- A record that has nothing fails the requirement of every tier above the lowest. -/
theorem Status.metBy_eq_false_of_fresh {s t : Status} {r : Record} (next : s.demoted.next? = some t)
    (nothing : r.measures = (Record.fresh none .new).measures) : t.metBy r = false := by
  rw [metBy_congr nothing]
  cases s <;> cases next <;> decide

namespace Record.Wanting

variable {r : Record}

/-- A new account is not scheduled. -/
theorem fresh (p : Option AccountId) (s : Status) : (Record.fresh p s).Wanting :=
  fun h => absurd rfl h

/-- Not to climb back is lasting. -/
theorem lasting : Record.Lasting Record.Wanting where
  climbed r h scheduled t ht := by
    have hunmet := h.unmet scheduled
    obtain rfl := Option.some.inj ((Status.next?_demoted hunmet).symm.trans ht)
    exact hunmet
  congr r r' h hmeasures hstatus hscheduled scheduled t ht := by
    rw [Status.metBy_congr hmeasures]
    exact h (hscheduled ▸ scheduled) t (hstatus ▸ ht)

end Record.Wanting

/-- **No account will climb back.** -/
def Roster.Wanting (m : Roster) : Prop := ∀ a r, m.get? a = some r → r.Wanting

/-- **A move** that has checked what it changes lets no account climb back. -/
theorem Move.Takes.wanting {mv : Move} {L L' : Ledger} (h : mv.Takes L L') (checks : mv.Checks)
    (full : Roster.Full L.records) (wanting : L.records.Wanting) : L'.records.Wanting :=
  h.forall_record checks full Record.Wanting.lasting (fun _ s _ => .fresh none s)
    (fun p _ s _ => .fresh (some p) s) wanting

/-! ### Documents -/

/-- **No account will climb back while a document is read in** over a forest: the accounts that are new have
nothing, whatever their tier. -/
def Roster.WantingOver (m₀ m : Roster) : Prop := ∀ a r, m.get? a = some r →
  r.Wanting ∧ (m₀.get? a = none → r.measures = (Record.fresh none .new).measures)

namespace Roster.WantingOver

variable {m₀ m : Roster} {a : AccountId} {r : Record}

/-- No account is new. -/
theorem start (h : m₀.Wanting) : WantingOver m₀ m₀ :=
  fun a r found => ⟨h a r found, fun absent => absurd (absent.symm.trans found) (by simp)⟩

/-- A record that has nothing and will not climb back. -/
theorem insert (h : WantingOver m₀ m) (wanting : r.Wanting)
    (nothing : r.measures = (Record.fresh none .new).measures) : WantingOver m₀ (m.insert a r) :=
  SortedMap.forall_insert h ⟨wanting, fun _ => nothing⟩

end Roster.WantingOver

namespace Genesis

/-- Declared addresses were declared before or are those of the members. -/
theorem mem_of_declare {seen seen' : List String} {members : List Member}
    (h : declare seen members = .ok seen') {s : String} (hs : s ∈ seen') :
    s ∈ members.map Member.address ∨ s ∈ seen := by
  induction members generalizing seen with
  | nil => exact .inr (Except.ok.inj h ▸ hs)
  | cons m rest ih =>
      rw [declare] at h
      split at h
      · contradiction
      · obtain hrest | hseen := ih h
        · exact .inl (List.mem_cons_of_mem _ hrest)
        · obtain rfl | hseen := List.mem_cons.mp hseen
          · exact .inl List.mem_cons_self
          · exact .inr hseen

/-- Addresses declared in groups were declared before or are those of the members of a group. -/
theorem mem_of_declareGroups {seen seen' : List String} {groups : List Group}
    (h : declareGroups seen groups = .ok seen') {s : String} (hs : s ∈ seen') :
    s ∈ groups.flatMap (fun g => g.referrals.map Member.address) ∨ s ∈ seen := by
  induction groups generalizing seen with
  | nil => exact .inr (Except.ok.inj h ▸ hs)
  | cons g rest ih =>
      rw [declareGroups] at h
      split at h
      · contradiction
      split at h
      next =>
        simp only [bind, Except.bind] at h
        split at h
        · contradiction
        next seen₁ hmembers =>
          rw [List.flatMap_cons, List.mem_append]
          obtain hrest | hseen := ih h
          · exact .inl (.inr hrest)
          · exact (mem_of_declare hmembers hseen).imp_left .inl
      next => contradiction

end Genesis

namespace Forest

open Program

variable {host : Host} {L : Ledger}

/-- **A document schedules new accounts only**: the accounts it declares are enrolled, and of those some
are scheduled. -/
theorem leads_importGenesis_new (quiet : host.Quiet) (g : Genesis) :
    (importGenesis host g).Leads L fun _ L' => ∃ addresses L₁ ms,
      host.Enrolls addresses (L.setParams g.params) L₁ ∧ Ledger.Path ms L₁ L' ∧
        ∀ m ∈ ms, ∃ t a, m = .reschedule t a ∧ L.records.get? a = none := by
  refine Leads.bind leads_ofExcept ?_
  rintro _ L ⟨hvalid, rfl⟩
  obtain ⟨roots, seen, seen', hroots, -, hdeclare, hgroups, hdowngrades⟩ :=
    Genesis.exists_of_validate hvalid
  refine Leads.bind (leads_setParams g.params) fun _ L₀ htakes => ?_
  obtain rfl : L₀ = L.setParams g.params := by
    cases htakes
    rfl
  refine (leads_importParts quiet _ _ _).mono ?_
  rintro _ L' ⟨L₁, henrolls, ms, hpath, hms⟩
  refine ⟨_, L₁, ms, henrolls, hpath, fun m hm => ?_⟩
  obtain ⟨d, hd, a, hparse, rfl⟩ := hms m hm
  have hdeclared : d.account ∈ (g.roots.getD []).map Member.address ++
      g.groups.flatMap fun g => g.referrals.map Member.address := by
    rw [hroots, Option.getD_some, List.mem_append]
    obtain hgroup | hseen := Genesis.mem_of_declareGroups hgroups (hdowngrades d hd)
    · exact .inr hgroup
    · exact (Genesis.mem_of_declare hdeclare hseen).imp_right fun h => absurd h List.not_mem_nil
  obtain ⟨b, hparse', habsent⟩ := henrolls.fresh _ hdeclared
  obtain rfl := Except.ok.inj (hparse.symm.trans hparse')
  exact ⟨d.time, a, rfl, habsent⟩

/-- **A document** lets no account climb back: being scheduled gives a new account nothing. -/
theorem leads_importGenesis_wanting (quiet : host.Quiet) (wanting : L.records.Wanting) (g : Genesis) :
    (importGenesis host g).Leads L fun _ L' => L'.records.Wanting := by
  refine (leads_importGenesis_new quiet g).mono ?_
  rintro _ L' ⟨addresses, L₁, ms, ⟨⟨ms₁, hpath₁, henter⟩, -⟩, hpath, hschedule⟩
  have hentered : Roster.WantingOver L.records L₁.records := by
    refine hpath₁.invariant (I := fun M => Roster.WantingOver L.records M.records)
      (fun m hm M M' htakes hM => ?_) (.start wanting)
    cases htakes with
    | addRoot => exact hM.insert (.fresh none _) rfl
    | addReferral => exact hM.insert (.fresh (some _) _) rfl
    | _ => exact (henter _ hm).elim
  have hscheduled : Roster.WantingOver L.records L'.records := by
    refine hpath.invariant (I := fun M => Roster.WantingOver L.records M.records)
      (fun m hm M M' htakes hM => ?_) hentered
    obtain ⟨t, a, rfl, habsent⟩ := hschedule m hm
    cases htakes with
    | reschedule found =>
        have hmeasures := (hM a _ found).2 habsent
        rw [Ledger.put, Ledger.enqueue, Ledger.records_unschedule]
        exact hM.insert (fun _ t ht => Status.metBy_eq_false_of_fresh ht hmeasures) hmeasures
  exact fun a r hr => (hscheduled a r hr).1

end Forest

/-! ### Histories -/

/-- Whether an operation schedules only new accounts, and has checked whatever else it changes. -/
def Operation.Ordinary : Operation → Prop
  | .importParts _ _ _ => False
  | .setActive _ _ checked => checked = true
  | _ => True

/-- The operations of the small history are ordinary. -/
theorem SmallHistory.ordinary : ∀ turn ∈ turns, turn.operation.Ordinary := by
  simp [turns, Operation.Ordinary]

/-- The moves of an ordinary operation have checked what they change, unless it reads in a document. -/
theorem Operation.Allows.checks {now : Timestamp} {op : Operation} {mv : Move} (h : op.Allows now mv)
    (ordinary : op.Ordinary) (living : ∀ g, op ≠ .importGenesis g) : mv.Checks := by
  cases op with
  | register =>
      obtain ⟨p, c, rfl⟩ := h
      trivial
  | importGenesis g => exact absurd rfl (living g)
  | importParts => exact ordinary.elim
  | setActive a active checked =>
      obtain rfl := h
      obtain rfl := ordinary
      simp [Move.Checks]
  | beginBlock =>
      obtain ⟨t, a, rfl⟩ := h
      trivial
  | _ => exact h ▸ trivial

namespace Forest

variable {host : Host}

/-- **What a turn leads to** that succeeds. -/
theorem post_of_leads {store : Store} {L L' : Ledger} {turn : Turn} {post : Unit → Ledger → Prop}
    (keeps : (World.ofStore store).Keeps L)
    (keeps' : (World.ofStore (turn.outcome host store).2.store).Keeps L')
    (ok : (turn.outcome host store).1 = .ok ())
    (leads : (turn.operation.program host turn.time).Leads L post) : post () L' := by
  obtain ⟨w₁, hrun, hfree, hview⟩ := World.transact_ok keeps.free (Prod.ext ok rfl)
  obtain ⟨L₁, hkeeps₁, hpost⟩ := leads _ _ _ keeps.branch hrun
  have hkept : (World.ofStore (turn.outcome host store).2.store).Keeps L₁ :=
    ⟨hfree, hview.symm ▸ hkeeps₁.stored⟩
  exact keeps'.unique hkept ▸ hpost

/-- **After every history of ordinary operations** no account will climb back. -/
theorem exists_wanting (quiet : host.Quiet) {turns : List Turn}
    (ordinary : ∀ turn ∈ turns, turn.operation.Ordinary) :
    ∃ L, (World.ofStore (after host turns)).Keeps L ∧ L.InStep ∧ L.records.Wanting := by
  induction turns with
  | nil => exact ⟨.empty, keeps_empty, .empty, fun a r hr => by simp [Ledger.empty] at hr⟩
  | cons turn earlier ih =>
      obtain ⟨L, hkeeps, hstep, hwanting⟩ := ih fun u hu => ordinary u (List.mem_cons_of_mem _ hu)
      obtain ⟨L', hkeeps', hstep', ⟨-, rfl⟩ | ⟨hok, ms, hmakes, hpath⟩⟩ :=
        keeps_outcome quiet hkeeps hstep turn
      · exact ⟨L', hkeeps', hstep', hwanting⟩
      · refine ⟨L', hkeeps', hstep', ?_⟩
        by_cases hdocument : ∃ g, turn.operation = .importGenesis g
        · obtain ⟨g, hg⟩ := hdocument
          have hleads : (turn.operation.program host turn.time).Leads L fun _ M =>
              M.records.Wanting := by
            rw [hg]
            exact leads_importGenesis_wanting quiet hwanting g
          exact post_of_leads hkeeps hkeeps' hok hleads
        · have hchecks : ∀ m ∈ ms, m.Checks := fun m hm =>
            (hmakes.allows hm).checks (ordinary turn List.mem_cons_self) fun g hg => hdocument ⟨g, hg⟩
          have hafter := hpath.invariant
            (I := fun M => Roster.Full M.records ∧ M.records.Wanting)
            (fun m hm _ _ htakes hM =>
              ⟨htakes.full hM.1, htakes.wanting (hchecks m hm) hM.1 hM.2⟩)
            ⟨hkeeps.stored.full, hwanting⟩
          exact hafter.2

end Forest

end ReferralForest

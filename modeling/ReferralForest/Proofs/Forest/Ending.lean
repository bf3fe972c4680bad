import ReferralForest.Proofs.Cascade.Courses
import ReferralForest.Proofs.Cascade.Locality
import ReferralForest.Proofs.Forest.Delegations
import ReferralForest.Proofs.Forest.Export

/-!
# Walks End

Two walks have no depth of their own: the one that raises the team stakes above an account, and the one
that writes the forest out level by level. A bound stands in for what the forest itself does: the bound
is never met. In every store that can come about the first walk goes once through the line of referrers
up to the root, and the second once through the levels of the forest, each level written out account by
account, whatever the bound is as long as it leaves room for them. Neither line nor levels are bounded
by anything but the number of records.

## Main definitions

* `Cascade.changeStakeAlong` — a stake change that goes through a list of ancestors.
* `Forest.exportAlong` — an export that goes through a list of levels.
* `Store.WalksEnd` — the walks over a store are walks through such lists.

## Main statements

* `Mirrors.run_raiseTeams` — raising team stakes goes once through the line of referrers.
* `World.Keeps.run_exportLevels_eq` — an export goes once through the levels.
* `Forest.walksEnd_after` — after every history the walks end.
-/

namespace ReferralForest

/-! ### Without a bound -/

namespace Cascade

/-- Raises the team stakes of some accounts, one after another. -/
def raiseEach (now : Timestamp) (delta : Int) : List AccountId → Cascade Unit
  | [] => pure ()
  | ancestor :: rest => do
    let _ ← update (some now) ancestor (addTeamStake delta)
    if delta ≠ 0 then announce ancestor .stakeChanged
    raiseEach now delta rest

/-- **The course of a stake change** that goes through the given ancestors. -/
def changeStakeAlong (now : Timestamp) (account : AccountId) (delta : Int) (line : List AccountId) :
    Cascade Unit := do
  match ← update (some now) account (addSelfStake delta) with
  | none => pure ()
  | some (flip, _) =>
    if delta ≠ 0 then announce account .stakeChanged
    raiseEach now delta line
    match flip with
    | some active => setActive (some now) account active
    | none => pure ()

end Cascade

namespace Forest

/-- Writes out some levels, one after another. -/
def exportEach : List (List (AccountId × Record)) → Program (List Group × List PendingDowngrade)
  | [] => pure ([], [])
  | level :: rest => do
    let written ← exportLevel level
    let (groups, downgrades) ← exportEach rest
    return (written.groups ++ groups, written.downgrades ++ downgrades)

/-- **Writes out the forest** by the given levels. -/
def exportAlong (levels : List (List (AccountId × Record))) : Program Genesis := do
  let params ← Program.params
  let top ← withRecords (← roots)
  let (groups, downgrades) ← exportEach levels
  return ⟨params, some (top.map memberOf), groups, downgrades⟩

end Forest

/-! ### Stake changes -/

namespace Mirrors

open Cascade

variable {α β : Type} {base : Roster} {log : List Entry} {w : World} {D : Draft}

/-- **Two cascades that begin alike** end alike if they do so from every draft to which the beginning
leads. -/
theorem run_bind_congr (h : Mirrors base log w D) {c : Cascade α} {f g : α → Cascade β}
    (same : ∀ a D₁ w₁, c.Yields D a D₁ → Mirrors base log w₁ D₁ →
      w₁.run (f a).buffered = w₁.run (g a).buffered) :
    w.run (c >>= f).buffered = w.run (c >>= g).buffered := by
  obtain ⟨w₁, hrun, h₁⟩ := h.run_buffered c
  rw [buffered_bind, buffered_bind]
  cases hresult : (c.runWith (fun step D => D.answer step) D).1 with
  | error e =>
      rw [hresult] at hrun
      rw [World.run_bind_of_error hrun, World.run_bind_of_error hrun]
  | ok a =>
      rw [hresult] at hrun
      rw [World.run_bind_of_ok hrun, World.run_bind_of_ok hrun]
      exact same a _ w₁ (Prod.ext hresult rfl) h₁

/-- The same after an event that is announced on a condition. -/
theorem run_announce_if_congr (h : Mirrors base log w D) {p : Prop} [Decidable p] {a : AccountId}
    {event : Event} {c c' : Cascade β}
    (same : ∀ D₁ w₁, D₁.records = D.records → Mirrors base log w₁ D₁ →
      w₁.run c.buffered = w₁.run c'.buffered) :
    w.run (if p then announce a event >>= fun _ => c else c).buffered =
      w.run (if p then announce a event >>= fun _ => c' else c').buffered := by
  split
  · refine h.run_bind_congr fun _ D₁ w₁ hannounce h₁ => ?_
    rw [yields_announce] at hannounce
    exact same D₁ w₁ (hannounce ▸ rfl) h₁
  · exact same D w rfl h

/-- **Raising team stakes** goes once through the line of referrers, for every bound that leaves room for
it. The walk goes on at the referrer, who is the next in the line. -/
theorem run_raiseTeams {m : Roster} {now : Timestamp} {delta : Int} {a : AccountId}
    {line : List AccountId} {bound : Nat} (h : Mirrors base log w D) (full : Roster.Full D.records)
    (places : Roster.parentOf D.records = Roster.parentOf m) (rises : m.RisesBy a line)
    (room : line.length ≤ bound) :
    w.run (raiseTeams now delta bound line.head?).buffered =
      w.run (raiseEach now delta line).buffered := by
  induction line generalizing a bound w D with
  | nil => cases bound <;> rfl
  | cons b rest ih =>
      obtain ⟨bound, rfl⟩ := Nat.exists_eq_add_of_le' (Nat.le_trans (Nat.le_add_left 1 _) room)
      refine h.run_bind_congr fun parent D₁ w₁ hupdate h₁ => ?_
      have hplaces := parentOf_of_yields_update (plain_addTeamStake now delta) full hupdate
      have hparent := join_of_yields_addTeamStake full hupdate
      rw [places, rises.tail.parentOf_eq_head?] at hparent
      have hfull₁ : Roster.Full D₁.records :=
        (walk_update (plain_addTeamStake now delta) full hupdate).full full
      refine h₁.run_announce_if_congr fun D₂ w₂ hD₂ h₂ => ?_
      rw [hparent]
      exact ih h₂ (hD₂ ▸ hfull₁) (by rw [hD₂, hplaces, places]) rises.tail
        (Nat.le_of_succ_le_succ room)

/-- **A stake change** goes once through the line of referrers. -/
theorem run_changeStake {now : Timestamp} {delta : Int} {a : AccountId} {line : List AccountId}
    {bound : Nat} (h : Mirrors base log w D) (full : Roster.Full D.records)
    (rises : D.records.RisesBy a line) (room : line.length ≤ bound) :
    w.run (changeStake now a delta bound).buffered =
      w.run (changeStakeAlong now a delta line).buffered := by
  refine h.run_bind_congr fun result D₁ w₁ hupdate h₁ => ?_
  have hplain : Plain (Edit.settled (some now) (some now)) (addSelfStake delta) := by
    intro D r b r' D' hchange
    obtain ⟨hledger, hedits, -⟩ := plain_addSelfStake delta D r b r' D' hchange
    exact ⟨hledger, hedits, .inl rfl⟩
  have hwalk := walk_update hplain full hupdate
  cases result with
  | none => rfl
  | some found =>
      obtain ⟨flip, parent⟩ := found
      have hparent : parent = line.head? := by
        rw [← rises.parentOf_eq_head?]
        obtain ⟨-, hnone, -⟩ | ⟨r, b, r₁, D₀, s, t, hr, hchange, hresult, -⟩ :=
          records_of_update (plain_addSelfStake delta) full hupdate
        · contradiction
        · obtain rfl := Option.some.inj hresult
          obtain ⟨-, stake, -, -, hb⟩ := yields_addSelfStake hchange
          rw [Roster.parentOf_of_get? hr, (Prod.mk.inj hb).2]
      dsimp only
      refine h₁.run_announce_if_congr fun D₂ w₂ hD₂ h₂ => ?_
      rw [buffered_bind, buffered_bind, hparent]
      refine World.run_bind_congr ?_ _
      exact h₂.run_raiseTeams (hD₂ ▸ hwalk.full full) (by rw [hD₂, Roster.parentOf_walk hwalk]) rises
        room

end Mirrors

/-- **A stake change that is carried out** goes once through the line of referrers. -/
theorem World.Keeps.run_commit_changeStake {w : World} {L : Ledger} (h : w.Keeps L) {host : Host}
    {now : Timestamp} {delta : Int} {a : AccountId} {line : List AccountId} {bound : Nat}
    (rises : L.records.RisesBy a line) (room : line.length ≤ bound) :
    w.run ((Cascade.changeStake now a delta bound).commit host) =
      w.run ((Cascade.changeStakeAlong now a delta line).commit host) := by
  rw [Cascade.commit, Cascade.commit, run_bind_of_ok (w.run_keep .empty),
    run_bind_of_ok (w.run_keep .empty)]
  exact run_bind_congr ((Mirrors.start h).run_changeStake h.stored.full rises room) _

/-! ### Exports -/

namespace Layout

variable (referrals : AccountId → List (AccountId × Record))

/-- A level and those below it, so many in all. -/
def levelList : Nat → List (AccountId × Record) → List (List (AccountId × Record))
  | 0, _ => []
  | n + 1, level => level :: levelList n (below referrals level)

variable {referrals}

/-- As many levels are listed as were asked for. -/
@[simp] theorem length_levelList (n : Nat) (level : List (AccountId × Record)) :
    (levelList referrals n level).length = n := by
  induction n generalizing level with
  | zero => rfl
  | succ n ih => rw [levelList, List.length_cons, ih]

/-- The accounts of all levels. -/
theorem flatten_levelList (n : Nat) (level : List (AccountId × Record)) :
    (levelList referrals n level).flatten = levelsFrom referrals n level := by
  induction n generalizing level with
  | zero => rfl
  | succ n ih => rw [levelList, List.flatten_cons, ih, levelsFrom]

end Layout

namespace World.Keeps

open Forest Layout

variable {w : World} {L : Ledger} {referrals : AccountId → List (AccountId × Record)}

/-- **Writing out all levels** goes once through them, for every bound that leaves room for them. -/
theorem run_exportLevels_eq (h : w.Keeps L)
    (found : ∀ p, ∀ e ∈ referrals p, L.records.get? e.1 = some e.2)
    (listed : ∀ p, w.run (children p) = (.ok ((referrals p).map Prod.fst), w)) {n bound : Nat}
    {level : List (AccountId × Record)} (ends : (below referrals)^[n] level = [])
    (before : ∀ k < n, (below referrals)^[k] level ≠ []) (room : n ≤ bound) :
    w.run (exportLevels bound level) = w.run (exportEach (levelList referrals n level)) := by
  induction n generalizing bound level with
  | zero =>
      rw [Function.iterate_zero_apply] at ends
      subst ends
      cases bound <;> rfl
  | succ n ih =>
      obtain ⟨bound, rfl⟩ := Nat.exists_eq_add_of_le' (Nat.le_trans (Nat.le_add_left 1 n) room)
      have hlevel := h.run_exportLevel found listed level
      have hrest : w.run (exportLevels bound (below referrals level)) =
          w.run (exportEach (levelList referrals n (below referrals level))) :=
        ih ends (fun k hk => before (k + 1) (Nat.succ_lt_succ hk)) (Nat.le_of_succ_le_succ room)
      cases level with
      | nil => exact absurd rfl (before 0 (Nat.succ_pos n))
      | cons e rest =>
          rw [levelList, exportLevels, exportEach, run_bind_of_ok hlevel, run_bind_of_ok hlevel]
          · exact run_bind_congr hrest _
          · simp

end World.Keeps

/-! ### Histories -/

/-- **The walks over a store end.** From every account with a record there is a line of referrers up to
a root, shorter than the number of records, and a stake change goes once through it; and there are levels
in which every record stands once, and an export goes once through them and succeeds. Neither depends on
the bound, as long as it leaves room for the line and for the levels. -/
def Store.WalksEnd (store : Store) : Prop :=
  ∃ m : Roster, store.Holds m ∧
    (∀ a r, m.get? a = some r → ∃ line, m.RisesBy a line ∧ line.length < m.size ∧
      ∀ (host : Host) (now : Timestamp) (delta : Int),
        (∀ bound, line.length ≤ bound →
          (World.ofStore store).transact ((Cascade.changeStake now a delta bound).commit host) =
            (World.ofStore store).transact
              ((Cascade.changeStakeAlong now a delta line).commit host)) ∧
        Turn.outcome host ⟨now, .changeStake a delta⟩ store =
          (World.ofStore store).transact
            ((Cascade.changeStakeAlong now a delta line).commit host)) ∧
    ∃ levels : List (List (AccountId × Record)), (levels.flatten.map Prod.fst).Nodup ∧
      m.ConsistsOf levels.flatten ∧ levels.length ≤ m.size ∧
      (∀ bound, levels.length ≤ bound →
        (World.ofStore store).run (Forest.exportLevels bound m.roots) =
          (World.ofStore store).run (Forest.exportEach levels)) ∧
      (World.ofStore store).run Forest.exportGenesis =
        (World.ofStore store).run (Forest.exportAlong levels) ∧
      ∃ g, (World.ofStore store).run Forest.exportGenesis = (.ok g, World.ofStore store)

namespace Forest

variable {host : Host}

open Layout

/-- **The levels of a forest**, in which every record stands once and through which an export goes once.
They are those in which there is somebody. -/
theorem exists_levels {store : Store} {L : Ledger} (keeps : (World.ofStore store).Keeps L)
    (forest : Roster.IsForest L.records) (related : L.Related) :
    ∃ levels : List (List (AccountId × Record)), (levels.flatten.map Prod.fst).Nodup ∧
      L.records.ConsistsOf levels.flatten ∧ levels.length ≤ L.records.size ∧
      (∀ bound, levels.length ≤ bound →
        (World.ofStore store).run (exportLevels bound L.records.roots) =
          (World.ofStore store).run (exportEach levels)) ∧
      (World.ofStore store).run exportGenesis = (World.ofStore store).run (exportAlong levels) ∧
      ∃ g, (World.ofStore store).run exportGenesis = (.ok g, World.ofStore store) := by
  classical
  obtain ⟨referrals, hlists, hlisted, hrun⟩ := keeps.exists_run_exportGenesis forest related
  have hfound : ∀ p, ∀ e ∈ referrals p, L.records.get? e.1 = some e.2 :=
    fun p e he => ((hlists.mem_referrals p e).mp he).1
  have hends : ∃ n, (below referrals)^[n] L.records.roots = [] :=
    ⟨_, hlists.level_eq_nil forest le_rfl⟩
  obtain ⟨n, hn, hmin⟩ : ∃ n, (below referrals)^[n] L.records.roots = [] ∧
      ∀ k < n, (below referrals)^[k] L.records.roots ≠ [] :=
    ⟨Nat.find hends, Nat.find_spec hends, fun k hk => Nat.find_min hends hk⟩
  have hfew : n ≤ L.records.size := by
    by_contra hlt
    exact hmin _ (Nat.lt_of_not_le hlt) (hlists.level_eq_nil forest le_rfl)
  have hmem : ∀ e, e ∈ levelsFrom referrals n L.records.roots ↔ L.records.get? e.1 = some e.2 :=
    fun e => hlists.mem_levelsFrom_iff_of_ends forest hn
  have hlevels : ∀ bound, n ≤ bound →
      (World.ofStore store).run (exportLevels bound L.records.roots) =
        (World.ofStore store).run (exportEach (levelList referrals n L.records.roots)) :=
    fun bound hbound => keeps.run_exportLevels_eq hfound hlisted hn hmin hbound
  refine ⟨levelList referrals n L.records.roots, ?_, ?_, ?_, ?_, ?_, _, hrun⟩
  · rw [flatten_levelList]
    refine (hlists.nodup_levelsFrom forest n).map_on fun d hd e he hsame => ?_
    have hd := (hmem d).mp hd
    rw [hsame, (hmem e).mp he] at hd
    exact Prod.ext hsame (Option.some.inj hd).symm
  · rw [flatten_levelList]
    exact hmem
  · rwa [length_levelList]
  · rwa [length_levelList]
  · have htop := keeps.run_withRecords fun e he => ((hlists.mem_top e).mp he).1
    have hbound : n ≤ (World.ofStore store).store.size :=
      Nat.le_trans hfew keeps.stored.size_records_le
    have hsize : (World.ofStore store).run Program.size = (.ok store.size, World.ofStore store) :=
      World.run_request _ Call.size
    rw [exportGenesis, exportAlong, World.run_bind_of_ok keeps.run_params,
      World.run_bind_of_ok keeps.run_params, World.run_bind_of_ok keeps.run_roots,
      World.run_bind_of_ok keeps.run_roots]
    refine (World.run_bind_of_ok htop _).trans (Eq.trans ?_ (World.run_bind_of_ok htop _).symm)
    rw [World.run_bind_of_ok hsize]
    exact World.run_bind_congr (hlevels _ hbound) _

/-- **After every history the walks end.** -/
theorem walksEnd_after (quiet : host.Quiet) (turns : List Turn) :
    (after host turns).WalksEnd := by
  obtain ⟨L, hkeeps, -, hforest, hrelated⟩ := exists_related_after quiet turns
  refine ⟨L.records, holds_of_keeps hkeeps, fun a r found => ?_,
    exists_levels hkeeps hforest hrelated⟩
  have hfound : L.records.get? a ≠ none := by simp [found]
  obtain ⟨line, hrises⟩ := hforest.exists_risesBy hfound
  have hshort := hrises.length_lt_size hforest hfound
  refine ⟨line, hrises, hshort, fun host' now delta => ⟨fun bound hbound => ?_, ?_⟩⟩
  · exact World.transact_congr (hkeeps.branch.run_commit_changeStake hrises hbound)
  · have hroom : line.length ≤ (after host turns).branch.size :=
      Nat.le_trans (Nat.le_of_lt hshort) hkeeps.branch.stored.size_records_le
    refine World.transact_congr (Eq.trans ?_ (hkeeps.branch.run_commit_changeStake hrises hroom))
    exact World.run_changeStake _

/-- The walks over the store after the small history end: a bound of one leaves room for the line above the
referral and a bound of two for the levels, and no lower bound does. -/
theorem walksEnd_after_small :
    let world := World.ofStore (after Host.standalone SmallHistory.turns)
    Host.standalone.Quiet ∧ (after Host.standalone SmallHistory.turns).WalksEnd ∧
      ((world.transact ((Cascade.changeStake ⟨1000⟩ SmallHistory.leaf 1 1).commit Host.standalone)).1 =
          .ok () ∧
        (world.transact ((Cascade.changeStake ⟨1000⟩ SmallHistory.leaf 1 0).commit Host.standalone)).1 =
          .error (.referrerCycle SmallHistory.root)) ∧
      ((world.run (do exportLevels 2 (← withRecords (← roots)))).1 =
          .ok ([⟨"root", [⟨"leaf", .starter⟩]⟩], []) ∧
        (world.run (do exportLevels 1 (← withRecords (← roots)))).1 =
          .error (.referrerCycle SmallHistory.leaf)) :=
  ⟨Host.quiet_standalone, walksEnd_after Host.quiet_standalone SmallHistory.turns,
    ⟨by decide +kernel, by decide +kernel⟩, by decide +kernel, by decide +kernel⟩

end Forest

end ReferralForest

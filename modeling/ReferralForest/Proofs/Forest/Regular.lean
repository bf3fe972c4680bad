import ReferralForest.Proofs.Cascade.Rising
import ReferralForest.Proofs.Forest.Compare
import ReferralForest.Proofs.Forest.Kinship

/-!
# Regular Ledgers

All at once what is true of a ledger after every history in which activity is left to the stakes and
every account is settled: the queue is in step, the forest is sound, everybody has climbed as far as
possible, relations agree with referrers, and the parameters are acceptable.

What follows for comparing two of them: if both come about from a regular ledger by rising walks, and
everybody holds the same in both, they are the same ledger.

## Main definitions

* `Ledger.Regular` — what holds of a ledger after every such history.

## Main statements

* `Forest.exists_acceptable_after` — the parameters after every history are acceptable.
* `Forest.exists_sound`, `Forest.exists_regular` — what the store after such histories keeps.
* `Ledger.Regular.eq_of_rising` — holdings decide where rising walks end.
-/

namespace ReferralForest

open Roster

/-- **A ledger is regular** if all that is kept is as it ought to be. -/
structure Ledger.Regular (L : Ledger) : Prop where
  /-- The queue is in step with the records. -/
  inStep : L.InStep
  /-- The forest is sound. -/
  sound : Sound L.records
  /-- Everybody has climbed as far as possible, or is scheduled. -/
  climbed : Climbed L.records
  /-- The relations are those of the referrers. -/
  related : L.Related
  /-- The parameters are acceptable. -/
  acceptable : ∀ p, L.params = some p → p.validate = .ok ()

/-- The default parameters are acceptable. -/
theorem Params.validate_default : Params.default.validate = .ok () := by decide +kernel

/-- If only acceptable parameters are stored, the parameters are acceptable, also where none are. -/
theorem Ledger.validate_params {L : Ledger}
    (acceptable : ∀ p, L.params = some p → p.validate = .ok ()) :
    (L.params.getD .default).validate = .ok () := by
  cases hp : L.params with
  | none => exact Params.validate_default
  | some p => exact acceptable p hp

/-- Nothing kept is regular. -/
theorem Ledger.Regular.empty : Ledger.empty.Regular :=
  ⟨.empty, .empty, .empty, .empty, nofun⟩

/-! ### Moves -/

/-- Whether a move leaves activity to the stakes. -/
def Move.LeavesActivity : Move → Prop
  | .setActive _ _ _ => False
  | _ => True

/-- The moves of an operation that leaves activity to the stakes do so. -/
theorem Operation.Allows.leavesActivity {now : Timestamp} {op : Operation} {mv : Move}
    (h : op.Allows now mv) (leaves : op.LeavesActivity) : mv.LeavesActivity := by
  cases op with
  | register =>
      obtain ⟨p, c, rfl⟩ := h
      trivial
  | importGenesis => cases mv <;> trivial
  | importParts => cases mv <;> trivial
  | setActive => exact leaves.elim
  | beginBlock =>
      obtain ⟨t, a, rfl⟩ := h
      trivial
  | _ => exact h ▸ trivial

namespace Move.Takes

variable {mv : Move} {L L' : Ledger}

/-- **A move that leaves activity to the stakes** keeps a forest sound. -/
theorem sound (h : mv.Takes L L') (leaves : mv.LeavesActivity) (sound : Sound L.records) :
    Sound L'.records := by
  by_cases calm : mv.Calm
  · obtain ⟨hstaked, hactive⟩ := h.staked calm sound.staked sound.activeByStake
    exact ⟨h.recounted sound.recounted, hstaked.raised, hactive⟩
  · cases h with
    | changeStake course => exact sound.changeStake course
    | setActive => exact leaves.elim
    | _ => exact absurd trivial calm

/-- Parameters are stored only if they are acceptable. -/
theorem acceptable (h : mv.Takes L L') (full : Full L.records)
    (acceptable : ∀ p, L.params = some p → p.validate = .ok ()) :
    ∀ p, L'.params = some p → p.validate = .ok () := by
  have walked : ∀ {P : Edit} {L₁ L' : Ledger}, Ledger.Walk P L₁ L' → L₁.params = L.params →
      ∀ p, L'.params = some p → p.validate = .ok () := by
    intro P L₁ L' hwalk hsame p hp
    rw [hwalk.params_eq, hsame] at hp
    exact acceptable p hp
  cases h with
  | setParams valid =>
      intro p hp
      exact Option.some.inj hp ▸ valid
  | addRoot => exact acceptable
  | addReferral => exact acceptable
  | register fresh placed parent above => exact walked above parent.params_eq
  | changeStake course => exact walked (Cascade.walk_changeStake full course) rfl
  | setActive course => exact walked (Cascade.walk_setActive full course) rfl
  | reschedule found =>
      next t a r =>
        have hsame : (L.unschedule r.downgradeAt a).params = L.params := by
          cases r.downgradeAt <;> rfl
        exact fun p hp => acceptable p (hsame.symm.trans hp)
  | lower found scheduled due settles =>
      rw [Ledger.put, settles.params_eq]
      exact acceptable

/-- **A move** that settles what it changes and leaves activity to the stakes keeps a ledger
regular. -/
theorem regular (h : mv.Takes L L') (settles : mv.Settles) (leaves : mv.LeavesActivity)
    (regular : L.Regular) : L'.Regular := by
  have hfull := regular.sound.recounted.full
  exact ⟨h.inStep hfull regular.inStep, h.sound leaves regular.sound,
    h.climbed settles hfull regular.climbed, h.related hfull regular.related,
    h.acceptable hfull regular.acceptable⟩

end Move.Takes

/-- **The parameters after every history** are acceptable, besides what is true of its forest. -/
theorem Forest.exists_acceptable_after {host : Host} (quiet : host.Quiet) (turns : List Turn) :
    ∃ L, (World.ofStore (after host turns)).Keeps L ∧ L.InStep ∧ IsForest L.records ∧ L.Related ∧
      (L.params.getD .default).validate = .ok () := by
  have hall : ∃ L, (World.ofStore (after host turns)).Keeps L ∧ L.InStep ∧
      IsForest L.records ∧ L.Related ∧ ∀ p, L.params = some p → p.validate = .ok () :=
    invariant quiet ⟨.empty, .empty, nofun⟩ fun _ _ _ _ _ _ full _ htakes h =>
      ⟨htakes.isForest full h.1, htakes.related full h.2.1, htakes.acceptable full h.2.2⟩
  obtain ⟨L, hkeeps, hstep, hforest, hrelated, hacceptable⟩ := hall
  exact ⟨L, hkeeps, hstep, hforest, hrelated, Ledger.validate_params hacceptable⟩

/-- **The store after a history** of operations that leave activity to the stakes keeps a sound forest. -/
theorem Forest.exists_sound {host : Host} (quiet : host.Quiet) {turns : List Turn}
    (leaves : ∀ turn ∈ turns, turn.operation.LeavesActivity) :
    ∃ L, (World.ofStore (after host turns)).Keeps L ∧ Sound L.records := by
  have hall : ∃ L, (World.ofStore (after host turns)).Keeps L ∧ L.InStep ∧ Sound L.records :=
    invariant quiet .empty fun turn hturn mv hallows _ _ _ _ htakes hsound =>
      htakes.sound (hallows.leavesActivity (leaves turn hturn)) hsound
  obtain ⟨L, hkeeps, -, hsound⟩ := hall
  exact ⟨L, hkeeps, hsound⟩

/-- **The store after a history** of operations that settle what they change and leave activity to the
stakes keeps a regular ledger. -/
theorem Forest.exists_regular {host : Host} (quiet : host.Quiet) {turns : List Turn}
    (settles : ∀ turn ∈ turns, turn.operation.Settles)
    (leaves : ∀ turn ∈ turns, turn.operation.LeavesActivity) :
    ∃ L, (World.ofStore (after host turns)).Keeps L ∧ L.Regular := by
  have hall : ∃ L, (World.ofStore (after host turns)).Keeps L ∧ L.InStep ∧ L.Regular := by
    refine invariant quiet .empty fun turn hturn mv hallows L L' _ _ htakes hL => ?_
    exact htakes.regular (hallows.settles (settles turn hturn))
      (hallows.leavesActivity (leaves turn hturn)) hL
  obtain ⟨L, hkeeps, -, hregular⟩ := hall
  exact ⟨L, hkeeps, hregular⟩

/-! ### Rising walks -/

namespace Ledger

variable {L L₁ L₂ : Ledger}

/-- A walk creates no record. -/
theorem Walk.get?_eq_none_iff {P : Edit} {L' : Ledger} (h : Walk P L L') (a : AccountId) :
    L'.records.get? a = none ↔ L.records.get? a = none := by
  have hmap := h.map_get?_eq (f := fun _ => ()) (fun _ _ _ _ _ => rfl) (fun _ _ _ => rfl) a
  rw [← Option.map_eq_none_iff (f := fun _ => ()), hmap, Option.map_eq_none_iff]

/-- **Holdings decide where rising walks end**: two of them that begin at a regular ledger and end at
sound forests in which everybody holds the same end at the same ledger. -/
theorem Regular.eq_of_rising (h : L.Regular) (walk₁ : Walk Edit.rising L L₁)
    (walk₂ : Walk Edit.rising L L₂) (sound₁ : Sound L₁.records) (sound₂ : Sound L₂.records)
    (same : ∀ a, (L₁.records.get? a).map Record.origin = (L₂.records.get? a).map Record.origin) :
    L₁ = L₂ := by
  have hrecords : L₁.records = L₂.records := by
    refine SortedMap.ext_get? fun a => ?_
    cases hr : L.records.get? a with
    | none => rw [(walk₁.get?_eq_none_iff a).mpr hr, (walk₂.get?_eq_none_iff a).mpr hr]
    | some r =>
        obtain ⟨r₁, hr₁, -⟩ := walk₁.measuresLe hr
        obtain ⟨r₂, hr₂, -⟩ := walk₂.measuresLe hr
        have hupdate := sound₁.eq_update sound₂ same hr₁ hr₂
        have hmeasures : r₂.measures = r₁.measures := by
          rw [hupdate]
          rfl
        have hclimbed := h.climbed a r hr
        have hstanding : (r₂.status, r₂.downgradeAt) = (r₁.status, r₁.downgradeAt) := by
          rw [walk₁.standing_eq hr hr₁ hclimbed, walk₂.standing_eq hr hr₂ hclimbed,
            Record.standing_congr hmeasures]
        obtain ⟨hstatus, hdowngrade⟩ := Prod.mk.inj hstanding
        rw [hr₁, hr₂, hupdate, hstatus, hdowngrade]
  have hqueue : L₁.queue = L₂.queue := by
    ext ⟨t, a⟩
    rw [h.inStep.walk walk₁ t a, h.inStep.walk walk₂ t a, hrecords]
  exact Ledger.ext hrecords hqueue (walk₁.relations_eq.trans walk₂.relations_eq.symm)
    (walk₁.params_eq.trans walk₂.params_eq.symm)

end Ledger

end ReferralForest

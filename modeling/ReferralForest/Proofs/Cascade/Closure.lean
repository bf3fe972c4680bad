import ReferralForest.Proofs.Cascade.Spread

/-!
# Cascades Made of Adjustments

The cascades of stakes and of activity adjust single records, one after another, and announce stake
changes in between. So a property that passes from the parts of a cascade to the whole holds of them if
it holds of every such adjustment; the walks over the ancestors are taken apart here once and for all.

## Main definitions

* `Cascade.Adjusts` — the changes of a record by which stakes and activity spread.
* `Cascade.ComposedAt`, `Cascade.Composed`, `Cascade.Closed` — the properties that pass from the parts of
  such a cascade to the whole: without announcements, for checks as of one time or of any, and with them.

## Main statements

* `Cascade.ComposedAt.setActive`, `Cascade.Closed.raiseTeams`, `Cascade.Closed.changeStake` — what holds of
  all adjustments holds of the cascades.
-/

namespace ReferralForest.Cascade

variable {α β : Type}

/-- **The changes of a record** by which stakes and activity spread. -/
inductive Adjusts : {β : Type} → (Record → Cascade (β × Record)) → Prop
  /-- The team stake of an ancestor. -/
  | addTeamStake (delta : Int) : Adjusts (addTeamStake delta)
  /-- The flag of an account. -/
  | flipRecord (active : Bool) (delta : Int) : Adjusts (flipRecord active delta)
  /-- The first line of its parent. -/
  | countChild (child : Flip) (active : Bool) (delta : Int) : Adjusts (countChild child active delta)
  /-- The count by three of its grandparent. -/
  | countByThree (delta : Int) : Adjusts (countByThree delta)
  /-- The generations of its ancestors. -/
  | countDescendant (generation : Nat) (delta : Int) : Adjusts (countDescendant generation delta)
  /-- The size classes of the teams of its ancestors. -/
  | reclassify (before after : Nat) : Adjusts (reclassify before after)

/-- **The properties that pass from the parts of a cascade to the whole**, if all it does is to adjust
records, and to check them as of one time or not at all. -/
structure ComposedAt (checkAt : Option Timestamp) (P : (α : Type) → Cascade α → Prop) : Prop where
  /-- Nothing is done. -/
  done : ∀ {α : Type} (a : α), P α (.done a)
  /-- One cascade after another. -/
  bind : ∀ {α β : Type} {c : Cascade α} {f : α → Cascade β}, P α c → (∀ a, P β (f a)) → P β (c >>= f)
  /-- A record is adjusted. -/
  adjust : ∀ {β : Type} {change : Record → Cascade (β × Record)}, Adjusts change →
    ∀ c, c = checkAt ∨ c = none → ∀ a, P (Option β) (update c a change)

/-- **The properties that pass from the parts of a cascade to the whole**, whenever it checks the records
it adjusts. -/
structure Composed (P : (α : Type) → Cascade α → Prop) : Prop where
  /-- Nothing is done. -/
  done : ∀ {α : Type} (a : α), P α (.done a)
  /-- One cascade after another. -/
  bind : ∀ {α β : Type} {c : Cascade α} {f : α → Cascade β}, P α c → (∀ a, P β (f a)) → P β (c >>= f)
  /-- A record is adjusted. -/
  adjust : ∀ {β : Type} {change : Record → Cascade (β × Record)}, Adjusts change →
    ∀ checkAt a, P (Option β) (update checkAt a change)

/-- **The properties that pass from the parts of a cascade to the whole**, if it adjusts records and
announces that stakes changed. -/
structure Closed (P : (α : Type) → Cascade α → Prop) : Prop extends Composed P where
  /-- A stake change is announced. -/
  announce : ∀ a, P Unit (announce a .stakeChanged)
  /-- A cycle of referrers is met. -/
  cycle : ∀ a, P Unit (.fail (.referrerCycle a))

namespace ComposedAt

variable {checkAt : Option Timestamp} {P : (α : Type) → Cascade α → Prop}
  (composed : ComposedAt checkAt P)
include composed

/-- Walking up over the generations. -/
theorem countGenerations (delta : Int) (levels generation : Nat) (start : Option AccountId) :
    P Unit (countGenerations checkAt delta levels generation start) := by
  induction levels generalizing generation start with
  | zero => exact composed.done _
  | succ levels ih =>
      cases start with
      | none => exact composed.done _
      | some ancestor =>
          refine composed.bind (composed.adjust (.countDescendant generation delta) checkAt (.inl rfl)
            ancestor) fun counted => ?_
          cases counted with
          | none => exact composed.done _
          | some stride =>
              obtain ⟨_ | next, _ | ⟨before, after⟩⟩ := stride
              case some.some =>
                  exact composed.bind
                    (composed.adjust (.reclassify before after) checkAt (.inl rfl) next)
                    fun _ => ih _ _
              all_goals exact ih _ _

/-- Making an account active or inactive. -/
theorem setActive (a : AccountId) (active : Bool) : P Unit (setActive checkAt a active) := by
  refine composed.bind (composed.adjust (.flipRecord active _) none (.inr rfl) a) fun flipped => ?_
  generalize flipped.join = flip
  obtain _ | ⟨parent, teamSize, hasThree⟩ := flip
  · exact composed.done _
  · cases parent with
    | none => exact composed.done _
    | some parent =>
        refine composed.bind (composed.adjust (.countChild _ active _) checkAt (.inl rfl) parent)
          fun crossed => ?_
        generalize crossed.join = grandparent
        cases grandparent with
        | none => exact composed.countGenerations ..
        | some grandparent =>
            refine composed.bind (composed.adjust (.countByThree _) checkAt (.inl rfl) grandparent)
              fun _ => ?_
            exact composed.countGenerations ..

end ComposedAt

namespace Composed

variable {P : (α : Type) → Cascade α → Prop} (composed : Composed P)
include composed

/-- What holds whenever records are checked holds when they are checked as of one time. -/
theorem at_time (checkAt : Option Timestamp) : ComposedAt checkAt P where
  done := composed.done
  bind := composed.bind
  adjust adjusts c _ a := composed.adjust adjusts c a

/-- Making an account active or inactive. -/
theorem setActive (checkAt : Option Timestamp) (a : AccountId) (active : Bool) :
    P Unit (setActive checkAt a active) :=
  (composed.at_time checkAt).setActive a active

end Composed

namespace Closed

variable {P : (α : Type) → Cascade α → Prop} (closed : Closed P)
include closed

/-- A stake change is announced on a condition. -/
theorem announce_if {p : Prop} [Decidable p] {a : AccountId} {rest : Unit → Cascade α}
    (h : P α (rest ())) : P α (if p then Cascade.announce a .stakeChanged >>= rest else rest ()) := by
  split
  · exact closed.bind (closed.announce a) fun _ => h
  · exact h

/-- Raising the team stakes of the ancestors. -/
theorem raiseTeams (now : Timestamp) (delta : Int) (bound : Nat) (start : Option AccountId) :
    P Unit (raiseTeams now delta bound start) := by
  induction bound generalizing start with
  | zero =>
      cases start with
      | none => exact closed.done _
      | some ancestor => exact closed.cycle ancestor
  | succ bound ih =>
      cases start with
      | none => exact closed.done _
      | some ancestor =>
          refine closed.bind (closed.adjust (.addTeamStake delta) (some now) ancestor) fun parent => ?_
          exact closed.announce_if (ih parent.join)

/-- **A stake change**, if the property holds of the change of the account's own stake. -/
theorem changeStake {now : Timestamp} {a : AccountId} {delta : Int} (bound : Nat)
    (self : P _ (update (some now) a (addSelfStake delta))) :
    P Unit (changeStake now a delta bound) := by
  refine closed.bind self fun changed => ?_
  cases changed with
  | none => exact closed.done _
  | some changed =>
      obtain ⟨flip, parent⟩ := changed
      refine closed.announce_if (closed.bind (closed.raiseTeams ..) fun _ => ?_)
      cases flip with
      | none => exact closed.done _
      | some active => exact closed.setActive ..

end Closed

end ReferralForest.Cascade

import ReferralForest.Cascade.Basic

/-!
# The Activity Cascade

An account is active while its own stake reaches a threshold. When it becomes active or ceases to be,
counts change in the records above it, each by one: how many active accounts lie at each generation
below, how many first-line referrals are active, how many of those have three active referrals of
their own, and how many have a team of each size class.

The counts are maintained, never recomputed. One flip at an account reaches

* its own record — the flag and generation 0;
* its parent — the size class of the account's team, the first line, and the count by three if the
  account has three active referrals;
* its grandparent — the count by three, if the active parent just reached or just lost its third
  active referral;
* its ancestors at levels 1 to 14 — the generation it lies at, and, when the team of an active
  ancestor changes its size, the size class of that team in the record one level further up.
-/

namespace ReferralForest

/-- The own stake, in base units, from which on an account is active. -/
def activationThreshold : Nat := 100000000

/-- A count moved by a signed difference, `none` when it leaves the range of eight signed bytes. A bare
addition of machine words does not check that: it stops the program there, or wraps around. After a
history of operations no count is negative or beyond the number of accounts, so none gets there. -/
def countShift? (count : Int64) (delta : Int) : Option Int64 :=
  let moved := count.toInt + delta
  if Int64.minValue.toInt ≤ moved ∧ moved ≤ Int64.maxValue.toInt then some (Int64.ofInt moved) else none

/-- A counter moved by a signed difference, `none` when it leaves the range of eight bytes. -/
def counterShift? (counter : UInt64) (delta : Int) : Option UInt64 :=
  let moved := (counter.toNat : Int) + delta
  if 0 ≤ moved ∧ moved < UInt64.size then some (UInt64.ofNat moved.toNat) else none

namespace Tallies

/-- Moves the count of the size class to which a team of `size` members belongs. -/
def shiftTeam? (size : Nat) (delta : Int) (t : Tallies) : Option Tallies :=
  if size < 15 then (countShift? t.team0 delta).map fun n => { t with team0 := n }
  else if size < 50 then (countShift? t.team15 delta).map fun n => { t with team15 := n }
  else if size < 100 then (countShift? t.team50 delta).map fun n => { t with team50 := n }
  else if size < 300 then (countShift? t.team100 delta).map fun n => { t with team100 := n }
  else (countShift? t.team300 delta).map fun n => { t with team300 := n }

/-- Moves the count of active first-line referrals. -/
def shiftFirstLine? (delta : Int) (t : Tallies) : Option Tallies :=
  (countShift? t.firstLine delta).map fun n => { t with firstLine := n }

/-- Moves the count by three. -/
def shiftByThree? (delta : Int) (t : Tallies) : Option Tallies :=
  (countShift? t.firstLineByThree delta).map fun n => { t with firstLineByThree := n }

/-- What a child's flip does to the counts about the first line: its team counts in or out of its
size class, it counts in or out itself, and so it does by three if it has three active
referrals. -/
def shiftChild? (teamSize : Nat) (byThree : Bool) (delta : Int) (t : Tallies) : Option Tallies := do
  let t ← t.shiftTeam? teamSize delta
  let t ← t.shiftFirstLine? delta
  if byThree then t.shiftByThree? delta else some t

/-- Moves a team from one size class to another. -/
def moveTeam? (before after : Nat) (t : Tallies) : Option Tallies := do
  let t ← t.shiftTeam? before (-1)
  t.shiftTeam? after 1

end Tallies

namespace Record

/-- Moves the counter of one generation. -/
def shiftGeneration? (generation : Nat) (delta : Int) (r : Record) : Option Record := do
  let counter ← r.generations[generation]?
  let moved ← counterShift? counter delta
  return { r with generations := r.generations.set generation moved }

end Record

namespace Cascade

/-- The name of a generation counter in errors. -/
def counterName : String := "active referral counter"

/-- The name of a count about the first line in errors. Bare additions have no error for it: they stop the
program or wrap around where a count fails with this name, which no store does that has a history. -/
def countName : String := "active referral aggregate"

/-- An account that just became active or ceased to be. -/
structure Flip where
  /-- The parent. -/
  parent : Option AccountId
  /-- The size of the active team. -/
  teamSize : Nat
  /-- Whether at least three first-line referrals are active. -/
  hasThree : Bool

/-- Sets the flag of a record and counts the account in or out of its own generation 0. Nothing is
flipped if the flag is as asked for. -/
def flipRecord (active : Bool) (delta : Int) (r : Record) : Cascade (Option Flip × Record) :=
  if r.active = active then pure (none, r)
  else do
    let r ← checked counterName ({ r with active }.shiftGeneration? 0 delta)
    return (some ⟨r.referrer, r.activeTeamSize, (byThree : Int) ≤ r.tallies.firstLine.toInt⟩, r)

/-- Counts a flipped child in or out of its parent's first line, and gives the grandparent if the
parent counts by three from now on, or no longer. -/
def countChild (child : Flip) (active : Bool) (delta : Int) (r : Record) :
    Cascade (Option AccountId × Record) := do
  let tallies ← checked countName (r.tallies.shiftChild? child.teamSize child.hasThree delta)
  let border : Int := if active then byThree else byThree - 1
  let crossed := r.active && tallies.firstLine.toInt == border
  return (if crossed then r.referrer else none, { r with tallies })

/-- A step of the walk over the generations: the next ancestor, and the sizes of an active
account's team before and after if they differ. -/
structure Stride where
  /-- The next ancestor. -/
  next : Option AccountId
  /-- The sizes of the team. -/
  moved : Option (Nat × Nat)

/-- Counts a descendant in or out of its generation. -/
def countDescendant (generation : Nat) (delta : Int) (r : Record) : Cascade (Stride × Record) := do
  let before := r.activeTeamSize
  let r ← checked counterName (r.shiftGeneration? generation delta)
  let after := r.activeTeamSize
  return (⟨r.referrer, if r.active ∧ before ≠ after then some (before, after) else none⟩, r)

/-- Moves a referral's team from one size class to another. -/
def reclassify (before after : Nat) (r : Record) : Cascade (Unit × Record) := do
  let tallies ← checked countName (r.tallies.moveTeam? before after)
  return ((), { r with tallies })

/-- Walks up from an ancestor at which the flipped account lies at `generation`, over at most
`levels` ancestors. -/
def countGenerations (checkAt : Option Timestamp) (delta : Int) :
    (levels generation : Nat) → Option AccountId → Cascade Unit
  | 0, _, _ | _, _, none => pure ()
  | levels + 1, generation, some ancestor => do
    match ← update checkAt ancestor (countDescendant generation delta) with
    | none => pure ()
    | some stride =>
      match stride.next, stride.moved with
      | some next, some (before, after) =>
        let _ ← update checkAt next (reclassify before after)
      | _, _ => pure ()
      countGenerations checkAt delta levels (generation + 1) stride.next

/-- **Makes an account active or inactive** and spreads that to its ancestors, whose status is
settled if a time is given. Nothing happens if the account is as asked for. -/
def setActive (checkAt : Option Timestamp) (account : AccountId) (active : Bool) : Cascade Unit := do
  let delta : Int := if active then 1 else -1
  let flipped ← update none account (flipRecord active delta)
  match flipped.join with
  | none => pure ()
  | some child =>
    match child.parent with
    | none => pure ()
    | some parent =>
      let crossed ← update checkAt parent (countChild child active delta)
      match crossed.join with
      | none => pure ()
      | some grandparent =>
        let _ ← update checkAt grandparent fun r => do
          let tallies ← checked countName (r.tallies.shiftByThree? delta)
          return ((), { r with tallies })
      countGenerations checkAt delta maxDepth 1 (some parent)

end Cascade

end ReferralForest

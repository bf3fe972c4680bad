import ReferralForest.Text.Decimal

/-!
# Status Tiers

The nine tiers of an account, from the unset tier over eight earned ones, with their order, their
names, and the number of fee lines each opens.
-/

namespace ReferralForest

/-- A tier. The unset tier stands below all others. -/
inductive Status where
  | unspecified | new | starter | leader | guru | boss | pro | top | mega
  deriving DecidableEq

namespace Status

/-- The place of a tier in the order. -/
def rank : Status → Nat
  | unspecified => 0
  | new => 1
  | starter => 2
  | leader => 3
  | guru => 4
  | boss => 5
  | pro => 6
  | top => 7
  | mega => 8

/-- The tier at a place. -/
def ofRank? : Nat → Option Status
  | 0 => some unspecified
  | 1 => some new
  | 2 => some starter
  | 3 => some leader
  | 4 => some guru
  | 5 => some boss
  | 6 => some pro
  | 7 => some top
  | 8 => some mega
  | _ => none

/-- The earned tiers, lowest first. -/
def earned : List Status := [new, starter, leader, guru, boss, pro, top, mega]

/-- The tier of a rank has that rank. -/
@[simp] theorem ofRank?_rank (s : Status) : ofRank? s.rank = some s := by
  cases s <;> rfl

/-- No two tiers have one rank. -/
theorem rank_injective {s t : Status} (h : s.rank = t.rank) : s = t := by
  have := ofRank?_rank s
  rw [h, ofRank?_rank] at this
  exact (Option.some.inj this).symm

/-- The rank read back is the rank asked for. -/
theorem rank_of_ofRank? {n : Nat} {s : Status} (h : ofRank? n = some s) : s.rank = n := by
  unfold ofRank? at h
  split at h <;> cases h <;> rfl

/-- The ranks go up to eight. -/
theorem rank_le (s : Status) : s.rank ≤ 8 := by
  cases s <;> decide

instance : LT Status := ⟨fun s t => s.rank < t.rank⟩
instance : LE Status := ⟨fun s t => s.rank ≤ t.rank⟩
instance (s t : Status) : Decidable (s < t) := inferInstanceAs (Decidable (s.rank < t.rank))
instance (s t : Status) : Decidable (s ≤ t) := inferInstanceAs (Decidable (s.rank ≤ t.rank))

/-- The tier above, if there is one. -/
def next? (s : Status) : Option Status := ofRank? (s.rank + 1)

/-- The tier below; the lowest earned tier and the unset one have none. -/
def prev? : Status → Option Status
  | unspecified | new => none
  | s => ofRank? (s.rank - 1)

/-- From how many generations of descendants a tier collects delegation fees. -/
def linesOpened : Status → Nat
  | new => 0
  | starter => 2
  | leader => 4
  | guru => 6
  | boss => 8
  | pro => 10
  | top => 12
  | mega | unspecified => 14

/-- The name of a tier in capitals. -/
def name : Status → String
  | unspecified => "UNSPECIFIED"
  | new => "NEW"
  | starter => "STARTER"
  | leader => "LEADER"
  | guru => "GURU"
  | boss => "BOSS"
  | pro => "PRO"
  | top => "TOP"
  | mega => "MEGA"

/-- The name of a tier in documents. -/
def label : Status → String
  | unspecified => "Unspecified"
  | new => "New"
  | starter => "Starter"
  | leader => "Leader"
  | guru => "Guru"
  | boss => "Boss"
  | pro => "Pro"
  | top => "Top"
  | mega => "Mega"

/-- A text without the given beginning, unchanged if it does not begin so. -/
def withoutBeginning (beginning cs : List Char) : List Char :=
  if beginning.isPrefixOf cs then cs.drop beginning.length else cs

/-- The tier a text denotes: a number below 256, or the name of an earned tier in any case, with
or without `STATUS_` in front. Otherwise the number to report, which is 255 for a text that is no
such number. -/
def parse (text : String) : Except Nat Status :=
  match Decimal.naturalBelow? 256 text with
  | some n =>
    match ofRank? n with
    | some s => .ok s
    | none => .error n
  | none =>
    let upper := withoutBeginning "STATUS_".toList (text.toList.map Char.toUpper)
    match earned.find? fun s => s.name.toList = upper with
    | some s => .ok s
    | none => .error 255

end Status

end ReferralForest

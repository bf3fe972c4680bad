import ReferralForest.Store.Basic

/-!
# Changes between Two States of a Store

The writes that lead from one state to another: one for each key whose value differs, in key order.
-/

namespace ReferralForest.Store

/-- The writes that lead from one sorted list of entries to another, found by going through both at
once. -/
def changesBetween : List (Key × Value) → List (Key × Value) → List Write
  | [], after => after.map fun (key, value) => (key, some value)
  | before, [] => before.map fun (key, _) => (key, none)
  | (k, v) :: before, (k', v') :: after =>
    match compare k k' with
    | .lt => (k, none) :: changesBetween before ((k', v') :: after)
    | .gt => (k', some v') :: changesBetween ((k, v) :: before) after
    | .eq =>
      if v = v' then changesBetween before after
      else (k', some v') :: changesBetween before after
termination_by before after => before.length + after.length

/-- The writes that lead from one map to another. -/
def changes (before after : SortedMap Key Value) : List Write :=
  changesBetween before.toList after.toList

end ReferralForest.Store

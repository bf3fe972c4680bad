import ReferralForest.Text.Quoted

/-!
# Log Formats

The shapes of log lines: for people, or as JSON documents.
-/

namespace ReferralForest

/-- The shape of log lines. -/
inductive LogFormat where
  | human | json
  deriving DecidableEq

namespace LogFormat

/-- The name of a format. -/
def name : LogFormat → String
  | human => "human"
  | json => "json"

/-- The format of an exact name. -/
def ofName? : String → Option LogFormat
  | "human" => some human
  | "json" => some json
  | _ => none

/-- What is said about a text that names no format. -/
def unknown (text : String) : String :=
  s!"unknown log format {Text.quoted text}, expected \"human\" or \"json\""

/-- The format an argument names, in any case; `text` names the format for people, too. -/
def parse (text : String) : Except String LogFormat :=
  let lower := String.ofList (text.toList.map Char.toLower)
  if lower = "text" then .ok human
  else match ofName? lower with
    | some format => .ok format
    | none => .error (unknown text)

end LogFormat

end ReferralForest

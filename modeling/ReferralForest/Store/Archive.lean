import ReferralForest.Store.Basic
import ReferralForest.Text.Hex

/-!
# Archives

The entries of a store as a text: a line for each, with the key and the value as pairs of hexadecimal
digits and a blank between them.
-/

namespace ReferralForest.Store

/-- A line for an entry. -/
def archiveLine (entry : Key × Value) : String :=
  Hex.bytes entry.1 ++ " " ++ Hex.bytes entry.2 ++ "\n"

/-- The entries of a map as a text. -/
def archive (entries : SortedMap Key Value) : String :=
  String.join (entries.toList.map archiveLine)

/-- The entry of a line. -/
def archivedEntry? (line : String) : Option (Key × Value) :=
  match line.splitOn " " with
  | [key, value] => do return (← Hex.bytes? key, ← Hex.bytes? value)
  | _ => none

/-- The map whose entries a text holds. -/
def ofArchive? (text : String) : Option (SortedMap Key Value) :=
  (((text.splitOn "\n").filter fun line => line ≠ "").mapM archivedEntry?).map SortedMap.ofList

end ReferralForest.Store

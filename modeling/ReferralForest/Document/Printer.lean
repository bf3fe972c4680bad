import ReferralForest.Document.Basic
import ReferralForest.Text.Hex

/-!
# Writing JSON Texts

Documents are written in two ways: compactly, without any blanks, and laid out over several lines
with two blanks per level. Empty lists and objects take one line either way.

In a text, quotes, backslashes and control characters are escaped and nothing else is. Control
characters with a letter of their own are escaped by it, the others by their number in four digits.
-/

namespace ReferralForest.Document

/-- A character inside quotes. -/
def quotedChar (c : Char) : List Char :=
  match c with
  | '"' => ['\\', '"']
  | '\\' => ['\\', '\\']
  | '\x08' => ['\\', 'b']
  | '\x0c' => ['\\', 'f']
  | '\n' => ['\\', 'n']
  | '\r' => ['\\', 'r']
  | '\t' => ['\\', 't']
  | c => if c < ' ' then ['\\', 'u'] ++ (Hex.padded 4 c.toNat).toList else [c]

/-- A text in quotes. -/
def quoted (text : String) : String :=
  String.ofList ('"' :: text.toList.flatMap quotedChar ++ ['"'])

/-- A document that is no list or object. An unreadable one is written like an absent one. -/
def scalarText : Document → String
  | bool true => "true"
  | bool false => "false"
  | integer n => toString n
  | text t => quoted t
  | _ => "null"

mutual

/-- **A document without blanks.** -/
def compact : Document → String
  | list items => "[" ++ String.intercalate "," (compactItems items) ++ "]"
  | object entries => "\x7b" ++ String.intercalate "," (compactEntries entries) ++ "\x7d"
  | d => d.scalarText

/-- The items of a list without blanks. -/
def compactItems : List Document → List String
  | [] => []
  | d :: rest => compact d :: compactItems rest

/-- The entries of an object without blanks. -/
def compactEntries : List (String × Document) → List String
  | [] => []
  | (name, d) :: rest => (quoted name ++ ":" ++ compact d) :: compactEntries rest

end

/-- The beginning of a line at a level. -/
def indent (level : Nat) : String := String.ofList (List.replicate (2 * level) ' ')

/-- The parts of a list or an object between its brackets, each on a line of its own. -/
def laidOut (level : Nat) (opening closing : String) (parts : List String) : String :=
  if parts.isEmpty then opening ++ closing
  else
    let lines := parts.map fun part => indent (level + 1) ++ part
    opening ++ "\n" ++ String.intercalate ",\n" lines ++ "\n" ++ indent level ++ closing

mutual

/-- A document laid out over lines, the first of which begins at a level. -/
def prettyAt (level : Nat) : Document → String
  | list items => laidOut level "[" "]" (prettyItems (level + 1) items)
  | object entries => laidOut level "\x7b" "\x7d" (prettyEntries (level + 1) entries)
  | d => d.scalarText

/-- The items of a list laid out. -/
def prettyItems (level : Nat) : List Document → List String
  | [] => []
  | d :: rest => prettyAt level d :: prettyItems level rest

/-- The entries of an object laid out. -/
def prettyEntries (level : Nat) : List (String × Document) → List String
  | [] => []
  | (name, d) :: rest => (quoted name ++ ": " ++ prettyAt level d) :: prettyEntries level rest

end

/-- **A document laid out over lines.** -/
def pretty (d : Document) : String := d.prettyAt 0

end ReferralForest.Document

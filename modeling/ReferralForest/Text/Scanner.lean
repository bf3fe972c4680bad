/-!
# Scanners

A scanner reads something from the front of a text and leaves the rest, or refuses. Of two
alternatives the second is tried where the first has begun if the first refuses.
-/

namespace ReferralForest

/-- Reads something from the front of a text. -/
abbrev Scanner := StateT (List Char) Option

namespace Scanner

variable {α β : Type}

/-- One character of a kind. -/
def charWhere (kind : Char → Bool) : Scanner Char
  | c :: rest => if kind c then some (c, rest) else none
  | [] => none

/-- A given character. -/
def char (c : Char) : Scanner Unit := discard (charWhere (· = c))

/-- A given text. -/
def word (text : String) : Scanner Unit := text.toList.forM char

/-- As many characters of a kind as there are. -/
def run (kind : Char → Bool) : Scanner (List Char) := fun cs =>
  some (cs.takeWhile kind, cs.dropWhile kind)

/-- The end of the text. -/
def atEnd : Scanner Unit
  | [] => some ((), [])
  | _ => none

/-- The next character, which is not taken. -/
def peek? : Scanner (Option Char) := fun cs => some (cs.head?, cs)

/-- A value that may be missing. -/
def given : Option α → Scanner α
  | some a => pure a
  | none => failure

/-- At most so many things, one after another. -/
def upTo : Nat → Scanner α → Scanner (List α)
  | 0, _ => pure []
  | n + 1, item =>
    (do
      let a ← item
      return a :: (← upTo n item)) <|> pure []

/-- As many things as there are. Each takes at least one character, so no more than the text has
characters. -/
def many (item : Scanner α) : Scanner (List α) := fun cs =>
  upTo cs.length item cs

/-- One or more things with separators between them. -/
def separated (separator : Scanner Unit) (item : Scanner α) : Scanner (List α) := do
  let first ← item
  let others ← many (do
    separator
    item)
  return first :: others

/-- Reads a whole text. -/
def ofText (item : Scanner α) (text : String) : Option α :=
  (do
    let a ← item
    atEnd
    return a).run' text.toList

end Scanner

end ReferralForest

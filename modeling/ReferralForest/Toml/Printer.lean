import ReferralForest.Text.Hex

/-!
# Writing TOML Texts

There are four ways to put a text in quotes: double or single ones, once or three times. A text is
written in the first way that needs no escapes, a tab apart. If there is none it stands in double
quotes, three times if it has line breaks. Triple quotes around line breaks begin with a new line,
which is not part of the text.
-/

namespace ReferralForest.Toml

/-- The length of the longest run of a character, where one of some length has just been read. -/
def longestRun (mark : Char) (current : Nat) : List Char → Nat
  | [] => current
  | c :: rest =>
    if c = mark then longestRun mark (current + 1) rest
    else max current (longestRun mark 0 rest)

/-- Whether a character can only be written by an escape. -/
def isControl (c : Char) : Bool := (c < ' ' && c ≠ '\t' && c ≠ '\n') || c = '\x7f'

/-- A way to put a text in quotes. -/
structure Quotes where
  /-- The character. -/
  mark : Char
  /-- Whether it stands three times on either side. -/
  isTripled : Bool

namespace Quotes

/-- Double quotes. -/
def double (isTripled : Bool) : Quotes := ⟨'"', isTripled⟩

/-- Single quotes, in which nothing can be escaped. -/
def single (isTripled : Bool) : Quotes := ⟨'\'', isTripled⟩

/-- All ways, the preferred ones first. -/
def all : List Quotes := [double false, single false, double true, single true]

/-- Whether a text needs no escapes in these quotes. -/
def suit (q : Quotes) (cs : List Char) : Bool :=
  !cs.any isControl && (q.mark = '\'' || !cs.contains '\\') && (q.isTripled || !cs.contains '\n') &&
    longestRun q.mark 0 cs ≤ if q.isTripled then 2 else 0

/-- The quotes in which a text is written. -/
def of (cs : List Char) : Quotes := (all.find? (·.suit cs)).getD (double (cs.contains '\n'))

/-- What stands on either side of the text. -/
def delimiter (q : Quotes) : List Char := List.replicate (if q.isTripled then 3 else 1) q.mark

end Quotes

/-- A character other than a quote in double quotes; line breaks stay in triple ones. -/
def quotedChar (isTripled : Bool) (c : Char) : List Char :=
  match c with
  | '\x08' => ['\\', 'b']
  | '\t' => ['\\', 't']
  | '\n' => if isTripled then ['\n'] else ['\\', 'n']
  | '\x0c' => ['\\', 'f']
  | '\r' => ['\\', 'r']
  | '\\' => ['\\', '\\']
  | c =>
    if isControl c then ['\\', 'u'] ++ (Hex.padded 4 c.toNat).toList.map Char.toUpper else [c]

/-- A text in double quotes. Between triple ones a quote is escaped where it would be the third of a
run. -/
def quotedChars (isTripled : Bool) (run : Nat) : List Char → List Char
  | [] => []
  | '"' :: cs =>
    if isTripled && run < 2 then '"' :: quotedChars isTripled (run + 1) cs
    else '\\' :: '"' :: quotedChars isTripled 0 cs
  | c :: cs => quotedChar isTripled c ++ quotedChars isTripled 0 cs

/-- **A text in quotes.** -/
def quotedText (text : String) : String :=
  let cs := text.toList
  let q := Quotes.of cs
  let opening := if q.isTripled && cs.contains '\n' then ['\n'] else []
  let inner := if q.mark = '"' then quotedChars q.isTripled 0 cs else cs
  String.ofList (q.delimiter ++ opening ++ inner ++ q.delimiter)

/-- A line that gives a key a written value. -/
def keyLine (key value : String) : String := key ++ " = " ++ value ++ "\n"

end ReferralForest.Toml

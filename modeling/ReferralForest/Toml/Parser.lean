import ReferralForest.Text.Scanner
import ReferralForest.Toml.Scalar

/-!
# Reading TOML Texts

A TOML text is read line by line: each line defines a key, opens a table, or is blank; lists and
texts in triple quotes take several lines. What the lines define is put into tables by the rules of
`Toml.modifyAt`.

Lists and tables in braces may be nested to a limited depth, and keys may have a limited number of
parts.
-/

namespace ReferralForest.Toml

open Scanner

/-! ### Blanks -/

/-- Blank characters within a line. -/
def isBlank (c : Char) : Bool := c = ' ' || c = '\t'

/-- Blanks within a line. -/
def blanks : Scanner Unit := discard (run isBlank)

/-- A line break, of one or two characters. -/
def lineBreak : Scanner Unit := char '\n' <|> word "\r\n"

/-- Characters that may stand in comments and quotes: tabs, and all but control characters. -/
def isPlain (c : Char) : Bool := c = '\t' || (' ' ≤ c && c ≠ '\x7f')

/-- A comment. -/
def comment : Scanner Unit := do
  char '#'
  discard (run isPlain)

/-- Blanks, comments and line breaks. -/
def filler : Scanner Unit :=
  discard (many (discard (charWhere isBlank) <|> lineBreak <|> (do
    comment
    lineBreak)))

/-! ### Quoted texts -/

/-- So many hexadecimal digits, as the number of a character. -/
def codePoint (digits : Nat) : Scanner Char := do
  let ds ← upTo digits (charWhere fun c => (Hex.digit? c).isSome)
  let n := positional 16 ds
  if h : ds.length = digits ∧ n.isValidChar then return Char.ofNatAux n h.2 else failure

/-- A character after a backslash. -/
def escaped : Scanner Char := do
  match ← charWhere fun _ => true with
  | 'b' => return '\x08'
  | 't' => return '\t'
  | 'n' => return '\n'
  | 'f' => return '\x0c'
  | 'r' => return '\r'
  | '"' => return '"'
  | '\\' => return '\\'
  | 'u' => codePoint 4
  | 'U' => codePoint 8
  | _ => failure

/-- A text in double quotes, on one line. -/
def quoted : Scanner String := do
  char '"'
  let cs ← many ((do
    char '\\'
    escaped) <|> charWhere fun c => isPlain c && c ≠ '"' && c ≠ '\\')
  char '"'
  return String.ofList cs

/-- A text in single quotes, on one line. Nothing is escaped in it. -/
def literal : Scanner String := do
  char '\''
  let cs ← run fun c => isPlain c && c ≠ '\''
  char '\''
  return String.ofList cs

/-- One or two quotes inside a text in triple quotes. -/
def innerQuotes (mark : Char) : Scanner (List Char) := do
  let quotes ← run (· = mark)
  if quotes.length = 1 ∨ quotes.length = 2 then return quotes else failure

/-- The end of a text in triple quotes. Up to two quotes before it belong to the text. -/
def closing (mark : Char) : Scanner (List Char) := do
  let quotes ← upTo 5 (charWhere (· = mark))
  if 3 ≤ quotes.length then return quotes.drop 3 else failure

/-- A text in triple quotes, which may go over several lines. A line break directly after the
opening quotes does not belong to it. -/
def tripled (mark : Char) (piece : Scanner (List Char)) : Scanner String := do
  word (String.ofList [mark, mark, mark])
  discard (optional lineBreak)
  let pieces ← many (piece <|> innerQuotes mark <|> (do
    lineBreak
    return ['\n']))
  let last ← closing mark
  return String.ofList (pieces.flatten ++ last)

/-- A backslash at the end of a line hides the line break and all blanks and line breaks after
it. -/
def hiddenBreak : Scanner (List Char) := do
  char '\\'
  blanks
  lineBreak
  discard (many (discard (charWhere isBlank) <|> lineBreak))
  return []

/-- A text in three double quotes. -/
def quotedLines : Scanner String :=
  tripled '"' (hiddenBreak <|> (do
    char '\\'
    return [← escaped]) <|> (do
    return [← charWhere fun c => isPlain c && c ≠ '"' && c ≠ '\\']))

/-- A text in three single quotes. -/
def literalLines : Scanner String :=
  tripled '\'' (do return [← charWhere fun c => isPlain c && c ≠ '\''])

/-! ### Keys -/

/-- Characters of keys without quotes. -/
def isKeyChar (c : Char) : Bool := c.isAlphanum || c = '_' || c = '-'

/-- A key without quotes. -/
def bareKey : Scanner String := do
  let cs ← run isKeyChar
  if cs.isEmpty then failure else return String.ofList cs

/-- How deep values may be nested. -/
def maxNesting : Nat := 79

/-- A key, which may have several parts with dots between them: the parts before the last, and the
last. -/
def key : Scanner (List String × String) := do
  let parts ← separated (char '.') do
    blanks
    let part ← bareKey <|> quoted <|> literal
    blanks
    return part
  if parts.length ≤ maxNesting then
    return (parts.dropLast, ← given parts.getLast?)
  else failure

/-! ### Values -/

/-- A word without quotes. -/
def bareValue : Scanner Toml := do
  let (w, rest) := cutWord (← get)
  set rest
  given (ofWord? w)

/-- A text of any kind. -/
def textValue : Scanner Toml :=
  .text <$> (quotedLines <|> quoted <|> literalLines <|> literal)

/-- A key and its value. -/
def pair (value : Scanner Toml) : Scanner ((List String × String) × Toml) := do
  let k ← key
  char '='
  blanks
  let v ← value
  blanks
  return (k, v)

/-- A list. A comma may stand after its last item. -/
def listValue (value : Scanner Toml) : Scanner Toml := do
  char '['
  filler
  let items ← optional (separated (char ',') (do
    filler
    let v ← value
    filler
    return v))
  discard (optional (do
    given (items.map fun _ => ())
    char ','
    filler))
  char ']'
  return .list (items.getD [])

/-- A table in braces, on one line. -/
def inlinedValue (value : Scanner Toml) : Scanner Toml := do
  char '\x7b'
  blanks
  let pairs ← optional (separated (char ',') (pair value))
  char '\x7d'
  let entries ← given ((pairs.getD []).foldlM
    (fun entries ((path, key), v) => assign path key v .header entries) [])
  return .inlined entries

/-- A value with lists and tables in braces nested up to a depth. -/
def valueWithin : (depth : Nat) → Scanner Toml
  | 0 => textValue <|> bareValue
  | depth + 1 =>
    textValue <|> bareValue <|> listValue (valueWithin depth) <|> inlinedValue (valueWithin depth)

/-! ### Lines -/

/-- What a line does. -/
inductive Line where
  /-- Nothing. -/
  | blank
  /-- Opens a table. -/
  | header (path : List String) (key : String)
  /-- Opens one more of several tables. -/
  | listed (path : List String) (key : String)
  /-- Gives a key a value. -/
  | assignment (path : List String) (key : String) (value : Toml)

/-- A header in double brackets. -/
def listedHeader : Scanner Line := do
  word "[["
  let (path, k) ← key
  word "]]"
  return .listed path k

/-- A header. -/
def tableHeader : Scanner Line := do
  char '['
  let (path, k) ← key
  char ']'
  return .header path k

/-- A definition. -/
def definition : Scanner Line := do
  let ((path, k), v) ← pair (valueWithin maxNesting)
  return .assignment path k v

/-- A line without its break. -/
def line : Scanner Line := do
  blanks
  let l ← listedHeader <|> tableHeader <|> definition <|> pure .blank
  blanks
  discard (optional comment)
  return l

/-- All lines of a text, which may begin with a byte order mark. -/
def lines : Scanner (List Line) := do
  discard (optional (char '\ufeff'))
  separated lineBreak line

/-- Carries out a line: `current` is the path of the table that was opened last. -/
def Line.apply (state : List String × Entries) (l : Line) : Option (List String × Entries) :=
  let (current, entries) := state
  match l with
  | .blank => some state
  | .header path k => do
    return (path ++ [k], ← modifyAt .path (openTable k) path .header entries)
  | .listed path k => do
    return (path ++ [k], ← modifyAt .path (openListed k) path .header entries)
  | .assignment path k v => do
    return (current, ← modifyAt .path (assign path k v) current .header entries)

/-- **The table a TOML text defines**, if it is one. -/
def parse (text : String) : Option Entries := do
  let ls ← Scanner.ofText lines text
  let (_, entries) ← ls.foldlM Line.apply ([], [])
  return entries

end ReferralForest.Toml

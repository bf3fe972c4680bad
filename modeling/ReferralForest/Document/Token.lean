import ReferralForest.Document.Basic
import ReferralForest.Text.Decimal
import ReferralForest.Text.Hex

/-!
# Tokens of JSON Texts

A JSON text is cut into brackets, separators and scalars. The cut is made character by character: the
scanner is between tokens, in a bare word (a number or one of `null`, `true`, `false`), or at some
place of a quoted text. A bare word ends where a character comes that cannot go on with one.

Inside quotes a backslash escapes a character by name or by its number in four hexadecimal digits.
Numbers are sixteen-bit units, so two of them can stand for one character.
-/

namespace ReferralForest.Document

/-- A token of a JSON text. -/
inductive Token where
  /-- An opening square bracket. -/
  | beginList
  /-- A closing square bracket. -/
  | endList
  /-- An opening brace. -/
  | beginObject
  /-- A closing brace. -/
  | endObject
  /-- A comma. -/
  | comma
  /-- A colon. -/
  | colon
  /-- A bare word. -/
  | scalar (value : Document)
  /-- A quoted text, none if it has half of a surrogate pair. -/
  | text (value : Option String)

/-! ### Bare words -/

/-- An exponent: a letter, an optional sign, digits. -/
def isExponent : List Char → Bool
  | letter :: '+' :: rest | letter :: '-' :: rest | letter :: rest =>
    (letter = 'e' || letter = 'E') && !rest.isEmpty && rest.all Char.isDigit
  | [] => false

/-- What may follow the whole part of a number: a fraction, an exponent, or both. -/
def isFractional : List Char → Bool
  | '.' :: rest =>
    let after := rest.dropWhile Char.isDigit
    after.length < rest.length && (after.isEmpty || isExponent after)
  | rest => isExponent rest

/-- The value of a number without its sign. Superfluous leading zeros are refused. -/
def magnitude? (word : List Char) : Option Document :=
  let after := word.dropWhile Char.isDigit
  match word.takeWhile Char.isDigit with
  | [] => none
  | '0' :: _ :: _ => none
  | digits =>
    if after.isEmpty then (Decimal.digits? digits).map fun n => .integer n
    else if isFractional after then some .unreadable
    else none

/-- The value of a number with its sign in front. There is no whole number minus zero. -/
def negated : Document → Document
  | .integer n => if n = 0 then .unreadable else .integer (-n)
  | other => other

/-- The value of a bare word. -/
def word? (word : List Char) : Option Document :=
  if word = "null".toList then some .null
  else if word = "true".toList then some (.bool true)
  else if word = "false".toList then some (.bool false)
  else match word with
    | '-' :: rest => (magnitude? rest).map negated
    | _ => magnitude? word

/-! ### Quoted texts -/

/-- A piece of a quoted text. -/
inductive Piece where
  /-- A character. -/
  | char (c : Char)
  /-- A sixteen-bit unit, given by its number. -/
  | unit (n : Nat)

/-- Whether a unit is the first half of a pair. -/
def isLeading (n : Nat) : Bool := 0xD800 ≤ n && n < 0xDC00

/-- Whether a unit is the second half of a pair. -/
def isTrailing (n : Nat) : Bool := 0xDC00 ≤ n && n < 0xE000

/-- The characters that pieces stand for, if no half of a pair stands alone. -/
def characters? : List Piece → Option (List Char)
  | [] => some []
  | .char c :: rest => (characters? rest).map (c :: ·)
  | .unit n :: rest =>
    if isLeading n then
      match rest with
      | .unit m :: rest =>
        if isTrailing m then
          (characters? rest).map (Char.ofNat (0x10000 + (n - 0xD800) * 0x400 + (m - 0xDC00)) :: ·)
        else none
      | _ => none
    else if isTrailing n then none
    else (characters? rest).map (Char.ofNat n :: ·)

/-- The text that pieces stand for. -/
def ofPieces (pieces : List Piece) : Option String :=
  (characters? pieces).map String.ofList

/-- The character a letter after a backslash stands for. -/
def escaped? : Char → Option Char
  | '"' => some '"'
  | '\\' => some '\\'
  | '/' => some '/'
  | 'b' => some '\x08'
  | 'f' => some '\x0c'
  | 'n' => some '\n'
  | 'r' => some '\r'
  | 't' => some '\t'
  | _ => none

/-! ### Scanning -/

/-- Where the scanner is. What has been read of a token is kept last first. -/
inductive Place where
  /-- Between tokens. -/
  | between
  /-- In a bare word. -/
  | bare (word : List Char)
  /-- In a quoted text. -/
  | quoted (pieces : List Piece)
  /-- In a quoted text, after a backslash. -/
  | escape (pieces : List Piece)
  /-- In a quoted text, in the number of a unit, with so many digits still to come. -/
  | unit (pieces : List Piece) (missing : Nat) (value : Nat)

/-- The state of the scanner. -/
structure Scanner where
  /-- The tokens read, last first. -/
  tokens : List Token
  /-- Where it is. -/
  place : Place

/-- Blank characters. -/
def isBlank (c : Char) : Bool := c = ' ' || c = '\t' || c = '\n' || c = '\r'

/-- Characters of bare words. -/
def isBare (c : Char) : Bool := c.isAlphanum || c = '-' || c = '+' || c = '.'

/-- The token that is a single character. -/
def mark? : Char → Option Token
  | '[' => some .beginList
  | ']' => some .endList
  | '\x7b' => some .beginObject
  | '\x7d' => some .endObject
  | ',' => some .comma
  | ':' => some .colon
  | _ => none

/-- Reads a character between tokens. -/
def Scanner.start (tokens : List Token) (c : Char) : Option Scanner :=
  if isBlank c then some ⟨tokens, .between⟩
  else if c = '"' then some ⟨tokens, .quoted []⟩
  else if isBare c then some ⟨tokens, .bare [c]⟩
  else (mark? c).map fun t => ⟨t :: tokens, .between⟩

/-- Reads a character. -/
def Scanner.step (s : Scanner) (c : Char) : Option Scanner :=
  match s.place with
  | .between => start s.tokens c
  | .bare word =>
    if isBare c then some ⟨s.tokens, .bare (c :: word)⟩
    else (word? word.reverse).bind fun value => start (.scalar value :: s.tokens) c
  | .quoted pieces =>
    if c = '"' then some ⟨.text (ofPieces pieces.reverse) :: s.tokens, .between⟩
    else if c = '\\' then some ⟨s.tokens, .escape pieces⟩
    else if c < ' ' then none
    else some ⟨s.tokens, .quoted (.char c :: pieces)⟩
  | .escape pieces =>
    if c = 'u' then some ⟨s.tokens, .unit pieces 4 0⟩
    else (escaped? c).map fun e => ⟨s.tokens, .quoted (.char e :: pieces)⟩
  | .unit pieces missing value =>
    (Hex.digit? c).map fun d =>
      ⟨s.tokens, if missing ≤ 1 then .quoted (.unit (16 * value + d) :: pieces)
        else .unit pieces (missing - 1) (16 * value + d)⟩

/-- The tokens read, at the end of a text. -/
def Scanner.finish (s : Scanner) : Option (List Token) :=
  match s.place with
  | .between => some s.tokens.reverse
  | .bare word => (word? word.reverse).map fun value => (.scalar value :: s.tokens).reverse
  | _ => none

/-- The tokens of a text. -/
def tokens? (text : String) : Option (List Token) :=
  (text.toList.foldlM Scanner.step ⟨[], .between⟩).bind Scanner.finish

end ReferralForest.Document

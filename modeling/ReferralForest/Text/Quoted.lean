import ReferralForest.Text.Escaped
import ReferralForest.Text.Hex

/-!
# Quoted Text

A text between double quotes, as error texts show it: quotes and backslashes are preceded by a
backslash, the common control characters have short forms, and other characters that cannot be seen
stand as their hexadecimal number in braces.
-/

namespace ReferralForest.Text

/-- A character inside a quoted text. -/
def quotedChar (c : Char) : List Char :=
  match c with
  | '"' => ['\\', '"']
  | '\\' => ['\\', '\\']
  | '\n' => ['\\', 'n']
  | '\t' => ['\\', 't']
  | '\r' => ['\\', 'r']
  | '\x00' => ['\\', '0']
  | c =>
    if isEscaped c then ['\\', 'u', '\x7b'] ++ (Hex.number c.toNat).toList ++ ['\x7d'] else [c]

/-- A text between double quotes. -/
def quoted (text : String) : String :=
  String.ofList ('"' :: text.toList.flatMap quotedChar ++ ['"'])

end ReferralForest.Text

import Scrapscript.Text
import Scrapscript.Text.Printable

/-!
Text in double quotes, as it appears in messages.
-/

namespace Scrapscript.Text

def hexadecimal (number : Nat) : Text :=
  Nat.toDigits 16 number

/-- A character inside quotes. A character that is not printable is written as its code point. -/
def quotedChar (char : Char) : Text :=
  if char == '"' || char == '\\' then ['\\', char]
  else if char == '\t' then ['\\', 't']
  else if char == '\r' then ['\\', 'r']
  else if char == '\n' then ['\\', 'n']
  else if char.toNat == 0 then ['\\', '0']
  else if isPrintable char then [char]
  else ['\\', 'u', '{'] ++ hexadecimal char.toNat ++ ['}']

/-- The text in double quotes, with escapes. -/
def quoted (text : Text) : Text :=
  '"' :: text.flatMap quotedChar ++ ['"']

end Scrapscript.Text

import TypedSettings.Text.Hex
import TypedSettings.Text.Hidden

/-!
# Quoted texts

A quoted text stands between double quotes on one line, whatever its characters are: quotes and backslashes have a
backslash in front, line ends, tabs and NUL have a letter, and every hidden character is written as its code point in
braces. The functions take the test for hidden characters as an argument, since nothing but the look of the result
depends on it.
-/

namespace TypedSettings.Text

/-- A character as it stands inside a quoted text. -/
def quotedChar (hidden : Char → Bool) (c : Char) : List Char :=
  if c == '"' then ['\\', '"']
  else if c == '\\' then ['\\', '\\']
  else if c == '\n' then ['\\', 'n']
  else if c == '\r' then ['\\', 'r']
  else if c == '\t' then ['\\', 't']
  else if c.toNat == 0 then ['\\', '0']
  else if hidden c then ['\\', 'u', '\x7b'] ++ hexDigits c.toNat ++ ['\x7d']
  else [c]

/-- A list of characters between quotes. -/
def quotedChars (hidden : Char → Bool) (cs : List Char) : List Char :=
  '"' :: (cs.flatMap (quotedChar hidden) ++ ['"'])

/-- A text between quotes. -/
def quoted (s : String) : String := String.ofList (quotedChars isHidden s.toList)

end TypedSettings.Text

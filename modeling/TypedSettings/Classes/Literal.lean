import TypedSettings.Text.Hex

/-!
# Literals and comments in the nested classes

`literal` writes a text as a string literal with the same value, and `summaryText` as text of a documentation comment.
A literal has no character that ends a line; a comment has the separators of lines and paragraphs as they are.
-/

namespace TypedSettings.Classes

/-- Whether a character is a control character. -/
def isControl (c : Char) : Bool := c.toNat < 0x20 || (0x7F ≤ c.toNat && c.toNat < 0xA0)

/-- Whether a character is one of the two separators of lines and paragraphs. -/
def isSeparator (c : Char) : Bool := c.toNat == 0x2028 || c.toNat == 0x2029

/-- A character as it stands inside a literal. -/
def literalChar (c : Char) : List Char :=
  if c == '"' then ['\\', '"']
  else if c == '\\' then ['\\', '\\']
  else if c == '\n' then ['\\', 'n']
  else if c == '\r' then ['\\', 'r']
  else if c == '\t' then ['\\', 't']
  else if c.toNat == 0 then ['\\', '0']
  else if isControl c || isSeparator c then '\\' :: 'u' :: Text.hexQuad c.toNat
  else [c]

/-- The string literal of a text. -/
def literal (s : String) : String := String.ofList ('"' :: (s.toList.flatMap literalChar ++ ['"']))

/-- A character as it stands in a documentation comment: a mark of its language as an entity, a control character as a
blank. -/
def summaryChar (c : Char) : List Char :=
  if c == '&' then "&amp;".toList
  else if c == '<' then "&lt;".toList
  else if c == '>' then "&gt;".toList
  else if c == '"' then "&quot;".toList
  else if isControl c then [' ']
  else [c]

/-- A text as it stands in a documentation comment. -/
def summaryText (s : String) : String := String.ofList (s.toList.flatMap summaryChar)

end TypedSettings.Classes

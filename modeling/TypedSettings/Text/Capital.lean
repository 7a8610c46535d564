/-!
# Capital letters, as far as ASCII shows them

`Text.capital c` is the upper case of `c` written out as a list, since one character may have an upper case of several
(`ß` has `SS`). Only the characters whose upper case holds an ASCII letter are treated; every other character outside
ASCII is its own capital here, which is enough wherever all such characters are replaced by one mark afterwards.
-/

namespace TypedSettings.Text

/-- The characters outside ASCII whose upper case is written with an ASCII letter, each with that upper case. -/
def foreignCapitals : List (Char × List Char) :=
  [ ('ß', ['S', 'S']), ('ı', ['I']), ('ŉ', ['ʼ', 'N']), ('ſ', ['S']), ('ǰ', ['J', '\u030c']),
    ('ẖ', ['H', '\u0331']), ('ẗ', ['T', '\u0308']), ('ẘ', ['W', '\u030a']), ('ẙ', ['Y', '\u030a']),
    ('ẚ', ['A', 'ʾ']), ('ﬀ', ['F', 'F']), ('ﬁ', ['F', 'I']), ('ﬂ', ['F', 'L']), ('ﬃ', ['F', 'F', 'I']),
    ('ﬄ', ['F', 'F', 'L']), ('ﬅ', ['S', 'T']), ('ﬆ', ['S', 'T']) ]

/-- The upper case of a character. -/
def capital (c : Char) : List Char :=
  if c.isLower then [c.toUpper] else (foreignCapitals.lookup c).getD [c]

/-- A word with its first character in upper case. -/
def capitalized : List Char → List Char
  | [] => []
  | c :: cs => capital c ++ cs

end TypedSettings.Text

import TypedSettings.Json.Fault

/-!
# What a reader takes off a text

A reader gives a value and what is left of the text, which is never longer than the text itself (`Taken`), and shorter
for a reader that takes a character at least (`Part`). The bound is carried along, so that a loop over the parts of a
text ends because each of them takes a character.
-/

namespace TypedSettings.Json

/-- A value read at the front of a text, and what is left of the text. -/
structure Taken (α : Type) (text : List Char) where
  value : α
  rest : List Char
  le : rest.length ≤ text.length

namespace Taken

variable {α β : Type} {text : List Char}

/-- A value for which nothing of the text is taken. -/
def here (value : α) : Taken α text := ⟨value, text, Nat.le_refl _⟩

/-- The same rest with another value. -/
def map (f : α → β) (t : Taken α text) : Taken β text := ⟨f t.value, t.rest, t.le⟩

/-- What was read at the front of a rest, as read at the front of the whole text. -/
def widen {longer : List Char} (h : text.length ≤ longer.length) (t : Taken α text) : Taken α longer :=
  ⟨t.value, t.rest, Nat.le_trans t.le h⟩

end Taken

/-- A value read at the front of a text that took a character at least, and what is left of the text. -/
structure Part (α : Type) (text : List Char) where
  value : α
  rest : List Char
  lt : rest.length < text.length

variable {α β : Type} {text : List Char}

/-- What was read behind one character, as a part that begins with the character. -/
def Taken.behind (c : Char) (t : Taken α text) : Part α (c :: text) := ⟨t.value, t.rest, Nat.lt_succ_of_le t.le⟩

namespace Part

/-- A part as something taken. -/
def taken (p : Part α text) : Taken α text := ⟨p.value, p.rest, Nat.le_of_lt p.lt⟩

/-- The same rest with another value. -/
def map (f : α → β) (p : Part α text) : Part β text := ⟨f p.value, p.rest, p.lt⟩

/-- A part of a rest, as a part of the whole text. -/
def widen {longer : List Char} (h : text.length ≤ longer.length) (p : Part α text) : Part α longer :=
  ⟨p.value, p.rest, Nat.lt_of_lt_of_le p.lt h⟩

end Part

/-- The characters that may stand between the tokens. -/
def isBlank (c : Char) : Bool := c == ' ' || c == '\t' || c == '\n' || c == '\r'

/-- A text without the blanks at its front. -/
def skipBlanks (text : List Char) : List Char := text.dropWhile isBlank

theorem length_skipBlanks_le (text : List Char) : (skipBlanks text).length ≤ text.length :=
  (List.dropWhile_sublist isBlank).length_le

section

variable {c : Char} {rest : List Char}

/-- What was read behind the first character that is no blank. -/
def Taken.pastMark (mark : skipBlanks text = c :: rest) (t : Taken α rest) : Taken α text :=
  t.widen (by
    have := length_skipBlanks_le text
    simp only [mark, List.length_cons] at this
    omega)

/-- A value for which only the blanks at the front are taken. -/
def Taken.atMark (mark : skipBlanks text = c :: rest) (value : α) : Taken α text :=
  ⟨value, c :: rest, mark ▸ length_skipBlanks_le text⟩

/-- A part that begins with the first character that is no blank. -/
def Part.fromMark (mark : skipBlanks text = c :: rest) (p : Part α (c :: rest)) : Part α text :=
  p.widen (mark ▸ length_skipBlanks_le text)

end

/-- Reads a fixed word. -/
def readWord : List Char → (text : List Char) → Except Fault (Taken Unit text)
  | [], _ => .ok (.here ())
  | _ :: _, [] => .error (.before .endOfValue [])
  | w :: word, c :: text =>
    if c = w then do return ((← readWord word text).behind c).taken
    else .error (.within .wordExpected (c :: text))

end TypedSettings.Json

import TypedSettings.Json.Taken
import TypedSettings.Text.Hex

/-!
# JSON strings

`readString` reads a string from behind its opening quote to its closing quote; `writeString` writes one with the fewest
escapes: quotes, backslashes and control characters only.
-/

namespace TypedSettings.Json

/-! ## Reading -/

/-- The value of a hexadecimal digit. -/
def hexValue? (c : Char) : Option Nat :=
  if c.isDigit then some (c.toNat - '0'.toNat)
  else if 'a' ≤ c ∧ c ≤ 'f' then some (c.toNat - 'a'.toNat + 10)
  else if 'A' ≤ c ∧ c ≤ 'F' then some (c.toNat - 'A'.toNat + 10)
  else none

/-- The number that four hexadecimal digits write. -/
def hexUnit? (a b c d : Char) : Option Nat := do
  return (((← hexValue? a) * 16 + (← hexValue? b)) * 16 + (← hexValue? c)) * 16 + (← hexValue? d)

/-- Reads four hexadecimal digits. Other characters are a fault behind four bytes of the text, and fewer than four bytes
a fault at its end. -/
def readUnit : (text : List Char) → Except Fault (Taken Nat text)
  | a :: b :: c :: d :: rest =>
    match hexUnit? a b c d with
    | some n => .ok ⟨n, rest, by simp only [List.length_cons]; omega⟩
    | none => .error ⟨.invalidEscape, size (a :: b :: c :: d :: rest) - 4⟩
  | text => .error (if size text < 4 then ⟨.endOfString, 0⟩ else ⟨.invalidEscape, size text - 4⟩)

/-- Whether a 16-bit unit is the first of a pair. -/
def isLeading (n : Nat) : Bool := 0xD800 ≤ n && n < 0xDC00

/-- Whether a 16-bit unit is the second of a pair. -/
def isTrailing (n : Nat) : Bool := 0xDC00 ≤ n && n < 0xE000

/-- Reads the character of an escape from behind its `u`: one unit, or two units that make a pair. -/
def readUnitEscape (text : List Char) : Except Fault (Taken Char text) := do
  let first ← readUnit text
  if isTrailing first.value then throw (.before .loneSurrogate first.rest)
  if isLeading first.value then
    match h : first.rest with
    | [] => throw (.before .endOfString [])
    | '\\' :: [] => throw (.before .endOfString [])
    | '\\' :: 'u' :: rest =>
      let second ← readUnit rest
      if isTrailing second.value then
        return ⟨Char.ofNat ((first.value - 0xD800) * 0x400 + (second.value - 0xDC00) + 0x10000), second.rest, by
          have := first.le
          have := second.le
          simp only [h, List.length_cons] at *
          omega⟩
      else throw (.before .loneSurrogate second.rest)
    | '\\' :: rest => throw (.within .brokenSurrogatePair rest)
    | rest => throw (.within .brokenSurrogatePair rest)
  else return ⟨Char.ofNat first.value, first.rest, first.le⟩

/-- The character that a letter behind a backslash stands for. -/
def escaped? (c : Char) : Option Char :=
  match c with
  | '"' => some '"'
  | '\\' => some '\\'
  | '/' => some '/'
  | 'b' => some '\x08'
  | 'f' => some '\x0c'
  | 'n' => some '\n'
  | 'r' => some '\r'
  | 't' => some '\t'
  | _ => none

/-- Reads an escape from behind its backslash. -/
def readEscape : (text : List Char) → Except Fault (Taken Char text)
  | [] => .error (.before .endOfString [])
  | 'u' :: rest => do return ((← readUnitEscape rest).behind 'u').taken
  | c :: rest =>
    match escaped? c with
    | some e => .ok ⟨e, rest, Nat.le_succ _⟩
    | none => .error (.within .invalidEscape (c :: rest))

/-- Reads the characters of a string up to its closing quote, which is taken too. -/
def readChars (text : List Char) : Except Fault (Taken (List Char) text) :=
  match text with
  | [] => .error (.before .endOfString [])
  | '"' :: rest => .ok ⟨[], rest, Nat.le_succ _⟩
  | '\\' :: rest => do
    let c ← readEscape rest
    have : c.rest.length < rest.length + 1 := Nat.lt_succ_of_le c.le
    let more ← readChars c.rest
    return (((more.map (c.value :: ·)).widen c.le).behind '\\').taken
  | c :: rest =>
    if c.toNat < 0x20 then .error (.within .controlCharacter (c :: rest))
    else do return (((← readChars rest).map (c :: ·)).behind c).taken
termination_by text.length

/-- Reads a string from behind its opening quote. -/
def readString (text : List Char) : Except Fault (Taken String text) := do
  return (← readChars text).map String.ofList

/-! ## Writing -/

/-- A character as it is written in a string. -/
def writeChar (c : Char) : List Char :=
  if c == '"' then ['\\', '"']
  else if c == '\\' then ['\\', '\\']
  else if c == '\x08' then ['\\', 'b']
  else if c == '\x0c' then ['\\', 'f']
  else if c == '\n' then ['\\', 'n']
  else if c == '\r' then ['\\', 'r']
  else if c == '\t' then ['\\', 't']
  else if c.toNat < 0x20 then '\\' :: 'u' :: Text.hexQuad c.toNat
  else [c]

/-- A string with its quotes. -/
def writeString (s : String) : List Char := '"' :: (s.toList.flatMap writeChar ++ ['"'])

end TypedSettings.Json

import TypedSettings.Binary64.Shortest
import TypedSettings.Json.Text
import TypedSettings.Value

/-!
# Printing JSON

`Value.compact` writes a value on one line, and `Value.pretty` one part a line, two blanks deeper than the list or
object that holds it. Lists and objects without parts are written on one line in both. A double that is infinite or not
a number has no text of its own and is written as `null`.
-/

namespace TypedSettings.Value

open Json

/-- A value that holds no other values. -/
def leafText : Value → List Char
  | .null => "null".toList
  | .bool b => (if b then "true" else "false").toList
  | .integer i => (toString i).toList
  | .float x => if x.isFinite then x.text.toList else "null".toList
  | .string s => writeString s
  | .array _ => []
  | .object _ => []

/-! ## On one line -/

mutual

/-- The characters of a value on one line. -/
def compactChars : Value → List Char
  | .array elements => '[' :: (compactElements elements ++ [']'])
  | .object members => '\x7b' :: (compactMembers members ++ ['\x7d'])
  | leaf => leafText leaf

/-- The elements of a list with commas between them. -/
def compactElements : List Value → List Char
  | [] => []
  | [x] => compactChars x
  | x :: xs => compactChars x ++ ',' :: compactElements xs

/-- The members of an object with commas between them. -/
def compactMembers : List (String × Value) → List Char
  | [] => []
  | [(key, x)] => writeString key ++ ':' :: compactChars x
  | (key, x) :: members => writeString key ++ ':' :: (compactChars x ++ ',' :: compactMembers members)

end

/-- A value on one line. -/
def compact (v : Value) : String := String.ofList v.compactChars

/-! ## On many lines -/

/-- The start of a new line at a depth. -/
def newLine (depth : Nat) : List Char := '\n' :: List.replicate (2 * depth) ' '

mutual

/-- The characters of a value at a depth on many lines. -/
def prettyChars (depth : Nat) : Value → List Char
  | .array [] => ['[', ']']
  | .array elements => '[' :: (prettyElements (depth + 1) elements ++ newLine depth ++ [']'])
  | .object [] => ['\x7b', '\x7d']
  | .object members => '\x7b' :: (prettyMembers (depth + 1) members ++ newLine depth ++ ['\x7d'])
  | leaf => leafText leaf

/-- The elements of a list at a depth, each on a line of its own. -/
def prettyElements (depth : Nat) : List Value → List Char
  | [] => []
  | [x] => newLine depth ++ prettyChars depth x
  | x :: xs => newLine depth ++ prettyChars depth x ++ ',' :: prettyElements depth xs

/-- The members of an object at a depth, each on a line of its own. -/
def prettyMembers (depth : Nat) : List (String × Value) → List Char
  | [] => []
  | [(key, x)] => newLine depth ++ writeString key ++ ':' :: ' ' :: prettyChars depth x
  | (key, x) :: members =>
    newLine depth ++ writeString key ++ ':' :: ' ' :: (prettyChars depth x ++ ',' :: prettyMembers depth members)

end

/-- A value on many lines. -/
def pretty (v : Value) : String := String.ofList (v.prettyChars 0)

end TypedSettings.Value

import TypedSettings.Json.Layout
import TypedSettings.Json.Number
import TypedSettings.Json.Text
import TypedSettings.Value

/-!
# Reading JSON

`Value.read` reads one value at the front of a text, and `Value.ofJson?` a text that holds one value and blanks. Lists
and objects may be nested in one another up to a fixed depth. A loop over the parts of a list or an object takes the
reader of one part as an argument, so that the readers of deeper values are those of a smaller depth.
-/

namespace TypedSettings

namespace Json

variable {α : Type}

/-- Reads the elements of a list up to its closing bracket, which is taken too. -/
def readElements (element : (text : List Char) → Except Fault (Part α text)) (first : Bool) (text : List Char) :
    Except Fault (Taken (List α) text) := do
  let next ← nextElement first text
  match next.value with
  | .close => return ⟨[], next.rest, next.le⟩
  | .part =>
    let x ← element next.rest
    have shorter : x.rest.length < text.length := Nat.lt_of_lt_of_le x.lt next.le
    let more ← readElements element false x.rest
    return (more.map (x.value :: ·)).widen (Nat.le_of_lt shorter)
termination_by text.length

/-- Reads a member of an object from behind the opening quote of its key. -/
def readMember (value : (text : List Char) → Except Fault (Part α text)) (text : List Char) :
    Except Fault (Part (String × α) text) := do
  let key ← readString text
  let colon ← readColon key.rest
  let x ← value colon.rest
  return (x.map fun v => (key.value, v)).widen (Nat.le_trans colon.le key.le)

/-- Reads the members of an object up to its closing brace, which is taken too. -/
def readMembers (value : (text : List Char) → Except Fault (Part α text)) (first : Bool) (text : List Char) :
    Except Fault (Taken (List (String × α)) text) := do
  let next ← nextKey first text
  match next.value with
  | .close => return ⟨[], next.rest, next.le⟩
  | .part =>
    let x ← readMember value next.rest
    have shorter : x.rest.length < text.length := Nat.lt_of_lt_of_le x.lt next.le
    let more ← readMembers value false x.rest
    return (more.map (x.value :: ·)).widen (Nat.le_of_lt shorter)
termination_by text.length

/-- How deep lists and objects may be nested. -/
def maxDepth : Nat := 127

end Json

namespace Value

open Json

/-- The value of a number: 64 bits with sign hold a whole one, or else it becomes a float. -/
def ofNumber : Number → Value
  | .double x => .float x
  | .whole i => if i < signedLimit then .integer i else .float ((Binary64.ofNat? i.toNat).getD .zero)

/-- Reads a value whose first character is `c`, given the reader of the values nested in it, if any may be. -/
def readFrom (nested : Option ((text : List Char) → Except Fault (Part Value text))) (c : Char) (rest : List Char) :
    Except Fault (Part Value (c :: rest)) :=
  match c with
  | 'n' => do return ((← readWord ['u', 'l', 'l'] rest).map fun _ => Value.null).behind _
  | 't' => do return ((← readWord ['r', 'u', 'e'] rest).map fun _ => Value.bool true).behind _
  | 'f' => do return ((← readWord ['a', 'l', 's', 'e'] rest).map fun _ => Value.bool false).behind _
  | '"' => do return ((← readString rest).map Value.string).behind _
  | '-' => do return ((← readNumber true rest).map ofNumber).taken.behind _
  | '[' => match nested with
    | none => .error (.within .nestedTooDeep ('[' :: rest))
    | some element => do return ((← readElements element true rest).map Value.array).behind _
  | '\x7b' => match nested with
    | none => .error (.within .nestedTooDeep ('\x7b' :: rest))
    | some value => do return ((← readMembers value true rest).map ofMembers).behind _
  | c =>
    if c.isDigit then do return (← readNumber false (c :: rest)).map ofNumber
    else .error (.within .valueExpected (c :: rest))

/-- Reads a value behind blanks, given the reader of the values nested in it, if any may be. -/
def readWith (nested : Option ((text : List Char) → Except Fault (Part Value text))) (text : List Char) :
    Except Fault (Part Value text) :=
  match h : skipBlanks text with
  | [] => .error (.within .endOfValue [])
  | c :: rest => do return (← readFrom nested c rest).fromMark h

/-- Reads a value in which `depth` lists and objects may be nested in one another. -/
def read : Nat → (text : List Char) → Except Fault (Part Value text)
  | 0 => readWith none
  | depth + 1 => readWith (some (read depth))

/-- The value that a text holds, with nothing but blanks around it. -/
def ofJson? (text : List Char) : Except Fault Value := do
  let part ← read maxDepth text
  match skipBlanks part.rest with
  | [] => return part.value
  | rest => throw (.within .trailingCharacters rest)

end Value

end TypedSettings

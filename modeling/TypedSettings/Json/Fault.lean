/-!
# Faults in JSON texts

A fault is a cause and a place in the text. The readers know the place only as what is left of the text, so a fault holds
the number of bytes ahead of it; `Location.ofOffset` turns the place into a line, counted from 1, and a column, counted
in bytes since the last line feed.
-/

namespace TypedSettings.Json

/-- What is wrong with a JSON text. -/
inductive Cause where
  | endOfValue
  | endOfList
  | endOfObject
  | endOfString
  | valueExpected
  | wordExpected
  | colonExpected
  | listEndExpected
  | objectEndExpected
  | keyNotString
  | trailingComma
  | trailingCharacters
  | invalidNumber
  | numberOutOfRange
  | invalidEscape
  | loneSurrogate
  | brokenSurrogatePair
  | controlCharacter
  | nestedTooDeep
  deriving DecidableEq, Repr

/-- The wording of a cause. -/
def Cause.message : Cause → String
  | .endOfValue => "EOF while parsing a value"
  | .endOfList => "EOF while parsing a list"
  | .endOfObject => "EOF while parsing an object"
  | .endOfString => "EOF while parsing a string"
  | .valueExpected => "expected value"
  | .wordExpected => "expected ident"
  | .colonExpected => "expected `:`"
  | .listEndExpected => "expected `,` or `]`"
  | .objectEndExpected => "expected `,` or `\x7d`"
  | .keyNotString => "key must be a string"
  | .trailingComma => "trailing comma"
  | .trailingCharacters => "trailing characters"
  | .invalidNumber => "invalid number"
  | .numberOutOfRange => "number out of range"
  | .invalidEscape => "invalid escape"
  | .loneSurrogate => "lone leading surrogate in hex escape"
  | .brokenSurrogatePair => "unexpected end of hex escape"
  | .controlCharacter => "control character (\\u0000-\\u001F) found while parsing a string"
  | .nestedTooDeep => "recursion limit exceeded"

/-- The number of bytes of a text. -/
def size (text : List Char) : Nat := text.foldr (fun c n => c.utf8Size + n) 0

/-- A cause, and the number of bytes of the text ahead of the place where it shows. -/
structure Fault where
  cause : Cause
  ahead : Nat
  deriving DecidableEq, Repr

/-- A fault in front of what is left of the text. -/
def Fault.before (cause : Cause) (rest : List Char) : Fault := ⟨cause, size rest⟩

/-- A fault behind the first byte of what is left of the text, or at its end if nothing is left. -/
def Fault.within (cause : Cause) (rest : List Char) : Fault := ⟨cause, size rest - 1⟩

/-- A place in a text: the line from 1, and the bytes since the last line feed. -/
structure Location where
  line : Nat
  column : Nat
  deriving DecidableEq, Repr

namespace Location

/-- The place that is reached from another one over a number of bytes of a text. -/
def advance (place : Location) : List Char → Nat → Location
  | [], _ => place
  | c :: text, n =>
    if n < c.utf8Size then { place with column := place.column + n }
    else if c = '\n' then advance ⟨place.line + 1, 0⟩ text (n - c.utf8Size)
    else advance { place with column := place.column + c.utf8Size } text (n - c.utf8Size)

/-- The place behind the first `offset` bytes of a text. -/
def ofOffset (text : List Char) (offset : Nat) : Location := advance ⟨1, 0⟩ text offset

/-- The place with the given number of bytes ahead of it. -/
def ofAhead (text : List Char) (ahead : Nat) : Location := ofOffset text (size text - ahead)

/-- The wording of a place. -/
def phrase (place : Location) : String := s!"line {place.line} column {place.column}"

end Location

/-- The message of a fault in a text. -/
def Fault.message (fault : Fault) (text : List Char) : String :=
  fault.cause.message ++ " at " ++ (Location.ofAhead text fault.ahead).phrase

end TypedSettings.Json

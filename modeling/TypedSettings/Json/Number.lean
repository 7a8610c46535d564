import TypedSettings.Binary64
import TypedSettings.Json.Taken

/-!
# JSON numbers

`readNumber` reads a number from behind its sign. A number without fraction and exponent is a whole number while 64 bits
hold it (without sign, or with sign below zero); any other number, and `-0`, is a double. Its digits are gathered while
64 bits hold them, the digits left out of the whole part count as powers of ten, and those left out of the fraction are
dropped.
-/

namespace TypedSettings.Json

/-- A number as read. -/
inductive Number where
  | whole (i : Int)
  | double (x : Binary64)
  deriving DecidableEq, Repr

/-- The value of a decimal digit. -/
def digitValue (c : Char) : Nat := c.toNat - '0'.toNat

/-- Gathers digits behind a number while the result is below `limit`; gives the result and the digits left out. -/
def gather (limit n : Nat) : List Char → Nat × List Char
  | [] => (n, [])
  | c :: digits =>
    if n * 10 + digitValue c < limit then gather limit (n * 10 + digitValue c) digits else (n, c :: digits)

/-- Reads the digits at the front of a text. -/
def readDigits (text : List Char) : Taken (List Char) text :=
  ⟨text.takeWhile Char.isDigit, text.dropWhile Char.isDigit, (List.dropWhile_sublist Char.isDigit).length_le⟩

/-- The bound below which the digits of a number are gathered. -/
def wordLimit : Nat := Nat.pow 2 64

/-- The bound of the whole numbers that 64 bits with sign hold. -/
def signedLimit : Nat := Nat.pow 2 63

/-- The bound below which the digits of an exponent are gathered. -/
def exponentLimit : Nat := Nat.pow 2 31

/-- The double `n · 10 ^ e` with a sign, as read in front of `rest`. -/
def double (negative : Bool) (n : Nat) (e : Int) (rest : List Char) : Except Fault (Taken Number rest) :=
  match Binary64.ofDecimal? n e with
  | some x => .ok (.here (.double (if negative then x.neg else x)))
  | none => .error (.before .numberOutOfRange rest)

/-- Reads an exponent from behind its letter and its sign, and gives the number `n · 10 ^ (e ± exponent)`. An exponent
beyond its bound makes zero of zero and of a power below one; it is out of range for any other power. -/
def readExponentDigits (negative : Bool) (n : Nat) (e : Int) (down : Bool) (text : List Char) :
    Except Fault (Taken Number text) :=
  match text with
  | [] => .error (.before .endOfValue [])
  | c :: rest =>
    if !c.isDigit then .error (.within .invalidNumber (c :: rest))
    else
      let digits := readDigits (c :: rest)
      match gather exponentLimit 0 digits.value with
      | (exponent, []) => do
        return (← double negative n (if down then e - exponent else e + exponent) digits.rest).widen digits.le
      | (_, _ :: left) =>
        if n ≠ 0 ∧ !down then .error (.before .numberOutOfRange (left ++ digits.rest))
        else .ok ⟨.double (if negative then Binary64.zero.neg else .zero), digits.rest, digits.le⟩

/-- Reads an exponent from behind its letter. -/
def readExponent (negative : Bool) (n : Nat) (e : Int) : (text : List Char) → Except Fault (Taken Number text)
  | '+' :: rest => do return ((← readExponentDigits negative n e false rest).behind '+').taken
  | '-' :: rest => do return ((← readExponentDigits negative n e true rest).behind '-').taken
  | rest => readExponentDigits negative n e false rest

/-- Reads what may follow the fraction. -/
def readBehindFraction (negative : Bool) (n : Nat) (e : Int) : (text : List Char) → Except Fault (Taken Number text)
  | 'e' :: rest => do return ((← readExponent negative n e rest).behind 'e').taken
  | 'E' :: rest => do return ((← readExponent negative n e rest).behind 'E').taken
  | rest => double negative n e rest

/-- Reads a fraction from behind its point. -/
def readFraction (negative : Bool) (n : Nat) (e : Int) (text : List Char) : Except Fault (Taken Number text) :=
  let digits := readDigits text
  if digits.value.isEmpty then
    .error (.within (if text.isEmpty then .endOfValue else .invalidNumber) text)
  else do
    let (m, left) := gather wordLimit n digits.value
    let number ← readBehindFraction negative m (e - (digits.value.length - left.length)) digits.rest
    return number.widen digits.le

/-- A number without fraction and exponent. -/
def wholeNumber (negative : Bool) (n : Nat) (rest : List Char) : Except Fault (Taken Number rest) :=
  if !negative then .ok (.here (.whole n))
  else if 0 < n ∧ n ≤ signedLimit then .ok (.here (.whole (-n)))
  else double true n 0 rest

/-- Reads what may follow the whole part, whose digits left out are counted by `e`. -/
def readBehindWhole (negative : Bool) (n e : Nat) : (text : List Char) → Except Fault (Taken Number text)
  | '.' :: rest => do return ((← readFraction negative n e rest).behind '.').taken
  | 'e' :: rest => do return ((← readExponent negative n e rest).behind 'e').taken
  | 'E' :: rest => do return ((← readExponent negative n e rest).behind 'E').taken
  | rest => if e = 0 then wholeNumber negative n rest else double negative n e rest

/-- Reads a number from behind its sign. -/
def readNumber (negative : Bool) : (text : List Char) → Except Fault (Part Number text)
  | [] => .error (.before .endOfValue [])
  | c :: rest =>
    if !c.isDigit then .error (.within .invalidNumber (c :: rest))
    else if c == '0' then
      if rest.head?.any Char.isDigit then .error (.within .invalidNumber rest)
      else do return (← readBehindWhole negative 0 0 rest).behind c
    else
      let digits := readDigits rest
      let (n, left) := gather wordLimit 0 (c :: digits.value)
      do return ((← readBehindWhole negative n left.length digits.rest).widen digits.le).behind c

end TypedSettings.Json

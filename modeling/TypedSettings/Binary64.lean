/-!
# Doubles

A number of the IEEE format binary64 is a sign and a magnitude, the 63 low bits of its word. The magnitudes below
`Binary64.limit` are those of the finite numbers, that one is infinity, and the larger ones are not numbers. All
arithmetic is done on whole numbers: a finite double is `units / 2 ^ 1074`, and every operation rounds its exact result
to the nearest finite double, a tie going to the even significand (`Binary64.nearest?`).
-/

namespace TypedSettings

/-- The leading bit of a significand. -/
def Binary64.leadingBit : Nat := Nat.pow 2 52

/-- How many units are one. -/
def Binary64.unitsInOne : Nat := Nat.pow 2 1074

/-- The magnitude of infinity, the first one that no finite double has. -/
def Binary64.limit : Nat := 2047 * leadingBit

/-- A double. -/
structure Binary64 where
  negative : Bool
  magnitude : Fin (Nat.pow 2 63)
  deriving DecidableEq, Repr

namespace Binary64

/-- The positive zero. -/
def zero : Binary64 := ⟨false, ⟨0, by decide⟩⟩

instance : Inhabited Binary64 := ⟨zero⟩

/-- Whether a double is one of the two zeros. -/
def isZero (x : Binary64) : Bool := x.magnitude.val == 0

/-- Whether a double is a finite number. -/
def isFinite (x : Binary64) : Bool := decide (x.magnitude.val < limit)

/-- Whether a double is not a number. -/
def isNaN (x : Binary64) : Bool := decide (limit < x.magnitude.val)

/-- The comparison of doubles as numbers: the two zeros are equal, and what is not a number is equal to nothing. -/
def equals (x y : Binary64) : Bool := !x.isNaN && !y.isNaN && (x == y || (x.isZero && y.isZero))

/-- Whether two doubles are the same number, or neither is a number. -/
def sameNumber (x y : Binary64) : Bool := if x.isNaN then y.isNaN else x.equals y

/-- The word that stores a double. -/
def word (x : Binary64) : Nat := (if x.negative then Nat.pow 2 63 else 0) + x.magnitude.val

/-- The double with the other sign. -/
def neg (x : Binary64) : Binary64 := { x with negative := !x.negative }

/-- The exponent of the significand's last place, counted from the smallest one. -/
def place (x : Binary64) : Nat := x.magnitude.val / leadingBit - 1

/-- The significand, with its leading bit. -/
def significand (x : Binary64) : Nat :=
  if x.magnitude.val < leadingBit then x.magnitude.val else leadingBit + x.magnitude.val % leadingBit

/-- The absolute value of a finite double as a multiple of the smallest one. -/
def units (x : Binary64) : Nat := x.significand * Nat.pow 2 x.place

/-- A quotient rounded to the nearest whole number, a half to the even one. -/
def roundHalfEven (num den : Nat) : Nat :=
  let low := num / den
  let excess := 2 * (num % den)
  if excess < den ∨ (excess = den ∧ low % 2 = 0) then low else low + 1

/-- The finite double nearest to `num / den` units, unless that is beyond the largest one. -/
def nearest? (num den : Nat) : Option Binary64 :=
  let place := (num / den).log2 - 52
  let magnitude := place * leadingBit + roundHalfEven num (den * Nat.pow 2 place)
  if h : magnitude < limit then some ⟨false, ⟨magnitude, Nat.lt_trans h (by decide)⟩⟩ else none

/-- The double nearest to a natural number. -/
def ofNat? (n : Nat) : Option Binary64 := nearest? (n * unitsInOne) 1

/-- The product of two absolute values. -/
def mul? (x y : Binary64) : Option Binary64 := nearest? (x.units * y.units) unitsInOne

/-- The quotient of two absolute values, the divisor not being zero. -/
def div? (x y : Binary64) : Option Binary64 := nearest? (x.units * unitsInOne) y.units

/-- The largest power of ten that is finite. -/
def maxTenPower : Nat := 308

/-- `x · 10 ^ n`, with `10 ^ n` rounded before the product is. -/
def scaleUp? (x : Binary64) (n : Nat) : Option Binary64 := do mul? x (← ofNat? (Nat.pow 10 n))

/-- `x / 10 ^ n`, divided by the largest finite power of ten until the rest of the power is finite. -/
def scaleDown? (x : Binary64) (n : Nat) : Option Binary64 :=
  if n ≤ maxTenPower then do div? x (← ofNat? (Nat.pow 10 n))
  else if x.isZero then some x
  else do
    let y ← div? x (← ofNat? (Nat.pow 10 maxTenPower))
    scaleDown? y (n - maxTenPower)
termination_by n
decreasing_by simp only [maxTenPower] at *; omega

/-- The double for `n · 10 ^ e`, or nothing where it is not finite. The result of each step is rounded, so it may differ
from the nearest double by a few places. -/
def ofDecimal? (n : Nat) (e : Int) : Option Binary64 := do
  let x ← ofNat? n
  match e with
  | .ofNat k => if k ≤ maxTenPower then scaleUp? x k else if x.isZero then some x else none
  | .negSucc k => scaleDown? x (k + 1)

end Binary64

end TypedSettings

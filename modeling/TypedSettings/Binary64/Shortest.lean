import TypedSettings.Binary64

/-!
# The shortest decimal of a finite double

`Binary64.shortest` gives the fewest decimal digits that read back as the same double, and of these the nearest to it, a
tie going to the even digit. `Binary64.text` writes them positionally where the decimal point stands near the digits,
and with an exponent elsewhere.
-/

namespace TypedSettings.Binary64

/-- Whether the decimal `d · 10 ^ k` rounds to the double: it lies between the halves of the gaps to the neighbours, ends
included for an even significand. All is measured in quarters of a unit. -/
def readsBack (x : Binary64) (d : Nat) (k : Int) : Bool :=
  let gap := Nat.pow 2 x.place
  let above := 4 * x.units + 2 * gap
  -- below a power of two the neighbour is half a gap nearer
  let below := 4 * x.units - if x.significand = leadingBit ∧ 0 < x.place then gap else 2 * gap
  let num := d * Nat.pow 10 k.toNat * (4 * unitsInOne)
  let den := Nat.pow 10 (-k).toNat
  if x.significand % 2 = 0 then below * den ≤ num && num ≤ above * den else below * den < num && num < above * den

/-- The decimal of a double on the grid of multiples of `10 ^ k`, if one of the two grid points around it reads back:
the nearer one, or the even one of two equally near. -/
def onGrid? (x : Binary64) (k : Int) : Option Nat :=
  let num := x.units * Nat.pow 10 (-k).toNat
  let den := unitsInOne * Nat.pow 10 k.toNat
  let best := roundHalfEven num den
  let low := num / den
  let other := if best = low then low + 1 else low
  if readsBack x best k then some best else if readsBack x other k then some other else none

/-- The exponent of the first decimal digit of `num / den`, found by stepping down from an upper bound. -/
def leadingPlace (num den : Nat) : Nat → Int → Int
  | 0, k => k
  | fuel + 1, k =>
    if den * Nat.pow 10 k.toNat ≤ num * Nat.pow 10 (-k).toNat then k else leadingPlace num den fuel (k - 1)

/-- The first grid, of at most `fuel + 1` ever finer ones, with a decimal that reads back. -/
def firstGrid (x : Binary64) : Nat → Int → Nat × Int
  | 0, k => ((onGrid? x k).getD 0, k)
  | fuel + 1, k => match onGrid? x k with
    | some d => (d, k)
    | none => firstGrid x fuel (k - 1)

/-- Takes the zeros off the end of a decimal. -/
def stripZeros (d : Nat) (k : Int) : Nat × Int :=
  if h : d ≠ 0 ∧ d % 10 = 0 then stripZeros (d / 10) (k + 1) else (d, k)
termination_by d
decreasing_by omega

/-- The shortest decimal `d · 10 ^ k` that reads back as the absolute value of a double. -/
def shortest (x : Binary64) : Nat × Int :=
  if x.isZero then (0, 0)
  else
    let first := leadingPlace x.units unitsInOne 633 309
    let (d, k) := firstGrid x 17 first
    stripZeros d k

/-- The digits of a decimal number. -/
def digits (n : Nat) : List Char := Nat.toDigits 10 n

/-- The text of a finite double: positional while the point stands at most sixteen places right and five places left of
the first digit, always with a digit behind the point, and otherwise one digit, the point, the rest and an exponent. -/
def text (x : Binary64) : String :=
  let (d, k) := x.shortest
  let ds := digits d
  let point := k + ds.length
  let body :=
    if x.isZero then ['0', '.', '0']
    else if 0 ≤ k ∧ point ≤ 16 then ds ++ List.replicate k.toNat '0' ++ ['.', '0']
    else if 0 < point ∧ point ≤ 16 then ds.take point.toNat ++ '.' :: ds.drop point.toNat
    else if -5 < point ∧ point ≤ 0 then ['0', '.'] ++ List.replicate (-point).toNat '0' ++ ds
    else
      let tail := if ds.length = 1 then [] else '.' :: ds.drop 1
      ds.take 1 ++ tail ++ 'e' :: (toString (point - 1)).toList
  String.ofList (if x.negative then '-' :: body else body)

end TypedSettings.Binary64

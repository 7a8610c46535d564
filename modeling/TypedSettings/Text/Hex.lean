/-!
# Hexadecimal digits
-/

namespace TypedSettings.Text

/-- A number in lower-case hexadecimal digits, with no leading zero. -/
def hexDigits (n : Nat) : List Char := Nat.toDigits 16 n

/-- A number below 65536 in four lower-case hexadecimal digits. -/
def hexQuad (n : Nat) : List Char :=
  [Nat.digitChar (n / 4096 % 16), Nat.digitChar (n / 256 % 16), Nat.digitChar (n / 16 % 16), Nat.digitChar (n % 16)]

end TypedSettings.Text

import TypedSettings.Value

/-!
# JSON pointers

A pointer is a text that leads from a value to one inside it: nothing for the value itself, or a slash and a step for
each level. In a step `~1` stands for a slash and `~0` for a tilde; in a list a step is a number without sign and
without zeros in front.
-/

namespace TypedSettings.Json

/-- The key that a step of a pointer writes. -/
def unescapeStep : List Char → List Char
  | '~' :: '1' :: step => '/' :: unescapeStep step
  | '~' :: '0' :: step => '~' :: unescapeStep step
  | c :: step => c :: unescapeStep step
  | [] => []

/-- The steps of a pointer, if it is empty or begins with a slash. -/
def pointerSteps? (pointer : String) : Option (List String) :=
  match pointer.toList with
  | [] => some []
  | '/' :: steps => some ((steps.splitOn '/').map fun step => String.ofList (unescapeStep step))
  | _ => none

/-- The place in a list that a step names. -/
def stepIndex? (step : String) : Option Nat :=
  match step.toList with
  | [] => none
  | ['0'] => some 0
  | '0' :: _ => none
  | digits => if digits.all Char.isDigit then some (Nat.ofDigitChars 10 digits 0) else none

/-- The value that one step leads to. -/
def stepInto? (step : String) : Value → Option Value
  | .object members => members.lookup step
  | .array elements => do elements[← stepIndex? step]?
  | _ => none

end TypedSettings.Json

namespace TypedSettings.Value

/-- The value that a list of steps leads to. -/
def follow? (value : Value) (steps : List String) : Option Value :=
  steps.foldlM (fun v step => Json.stepInto? step v) value

/-- The value that a pointer leads to. -/
def atPointer? (value : Value) (pointer : String) : Option Value := do value.follow? (← Json.pointerSteps? pointer)

end TypedSettings.Value

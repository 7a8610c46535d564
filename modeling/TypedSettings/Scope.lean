/-!
# Scopes of names

A scope holds the names in use at one place of the generated code. `Scope.claim` gives out a name that is not in use:
the wanted one, or else the wanted one with the least number from 2 upwards that makes it free. Of `n + 1` numbered
names one at least is free of `n` names in use, so the search is short (`firstFree`).
-/

namespace TypedSettings

/-- The first of the names `name n, name (n + 1), …` that is not taken, where the search gives up after `tries` names and
takes the next one unseen. -/
def firstFree {α : Type} (taken : α → Bool) (name : Nat → α) : (tries n : Nat) → α
  | 0, n => name n
  | tries + 1, n => if taken (name n) then firstFree taken name tries (n + 1) else name n

/-- The names in use at one place, and what stands between a name and its number. -/
structure Scope where
  separator : String
  used : List String
  deriving Repr

namespace Scope

/-- The scope with no names. -/
def empty (separator : String) : Scope := ⟨separator, []⟩

/-- Whether a name is in use. -/
def holds (scope : Scope) (name : String) : Bool := scope.used.contains name

/-- The scope with one more name in use. -/
def reserve (scope : Scope) (name : String) : Scope := { scope with used := scope.used.insert name }

/-- A name with a number. -/
def numbered (scope : Scope) (base : String) (n : Nat) : String := base ++ scope.separator ++ toString n

/-- The name that is given out for a wanted one. -/
def freeName (scope : Scope) (base : String) : String :=
  if scope.holds base then firstFree scope.holds (scope.numbered base) scope.used.length 2 else base

/-- Gives out a name, and the scope in which it is in use. -/
def claim (scope : Scope) (base : String) : String × Scope := (scope.freeName base, scope.reserve (scope.freeName base))

end Scope

end TypedSettings

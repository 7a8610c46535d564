/-!
# Name patterns

A pattern is a text in which `?` stands for any character, `*` for any text, and brackets for one character out of a
set, or not in it after a `!`; a set lists characters and ranges of them. `**` has to be all that stands between two
slashes. `pieces?` reads a pattern or tells the place where it is not one, and `matchesName` compares it with a name.
-/

namespace TypedSettings.Wildcard

/-- The ranges of characters in a set; a single character is a range from itself to itself. -/
abbrev Ranges := List (Char × Char)

/-- What stands for a part of a name. -/
inductive Piece where
  | char (c : Char)
  | anyChar
  | anyText
  | anyDepth
  | oneOf (ranges : Ranges)
  | noneOf (ranges : Ranges)
  deriving DecidableEq, Repr

/-- What is wrong in a pattern. -/
inductive Flaw where
  | longRun
  | depthInName
  | badSet
  deriving DecidableEq, Repr

/-- The wording of a flaw. -/
def Flaw.phrase : Flaw → String
  | .longRun => "wildcards are either regular `*` or recursive `**`"
  | .depthInName => "recursive wildcards must form a single path component"
  | .badSet => "invalid range pattern"

/-- A flaw and the number of characters in front of it. -/
structure Fault where
  position : Nat
  flaw : Flaw
  deriving DecidableEq, Repr

/-- The wording of a fault. -/
def Fault.message (fault : Fault) : String :=
  "Pattern syntax error near position " ++ toString fault.position ++ ": " ++ fault.flaw.phrase

/-! ## Reading -/

/-- The ranges of a set: three characters with a dash in the middle, or one character. -/
def rangesOf : List Char → Ranges
  | first :: '-' :: last :: cs => (first, last) :: rangesOf cs
  | c :: cs => (c, c) :: rangesOf cs
  | [] => []

/-- The characters up to a closing bracket and the ones behind it. The first character belongs to the set even if it is
a closing bracket. -/
def upToBracket : List Char → Option (List Char × List Char)
  | [] => none
  | first :: cs => match cs.dropWhile (· != ']') with
    | [] => none
    | _ :: rest => some (first :: cs.takeWhile (· != ']'), rest)

/-- The set behind an opening bracket, and what follows its closing bracket. -/
def readSet (cs : List Char) : Option (Piece × List Char) :=
  match cs with
  | '!' :: cs => (upToBracket cs).map fun (set, rest) => (.noneOf (rangesOf set), rest)
  | cs => (upToBracket cs).map fun (set, rest) => (.oneOf (rangesOf set), rest)

theorem length_upToBracket {cs set rest : List Char} (h : upToBracket cs = some (set, rest)) :
    rest.length < cs.length := by
  cases cs with
  | nil => simp [upToBracket] at h
  | cons first cs =>
    have le := (List.dropWhile_sublist (l := cs) (· != ']')).length_le
    rw [upToBracket] at h
    split at h
    · cases h
    · rename_i eq
      cases h
      rw [eq] at le
      simp only [List.length_cons] at le ⊢
      omega

theorem length_readSet {cs : List Char} {piece : Piece} {rest : List Char} (h : readSet cs = some (piece, rest)) :
    rest.length < cs.length := by
  unfold readSet at h
  split at h
  all_goals
    obtain ⟨⟨set, rest'⟩, eq, h⟩ := Option.map_eq_some_iff.mp h
    cases h
    have := length_upToBracket eq
    simp only [List.length_cons] at *
    omega

/-- The pieces of a pattern from a position on, given the character in front of it. -/
def piecesFrom (position : Nat) (before : Option Char) : List Char → Except Fault (List Piece)
  | [] => .ok []
  | '?' :: cs => return .anyChar :: (← piecesFrom (position + 1) (some '?') cs)
  | '*' :: '*' :: '*' :: _ => .error ⟨position + 2, .longRun⟩
  | '*' :: '*' :: cs =>
    if before.all (· == '/') then match cs with
      | [] => .ok [.anyDepth]
      | '/' :: cs => return .anyDepth :: (← piecesFrom (position + 3) (some '/') cs)
      | _ :: _ => .error ⟨position + 2, .depthInName⟩
    else .error ⟨position - 1, .depthInName⟩
  | '*' :: cs => return .anyText :: (← piecesFrom (position + 1) (some '*') cs)
  | '[' :: cs => match h : readSet cs with
    | none => .error ⟨position, .badSet⟩
    | some (piece, rest) =>
      have : rest.length < cs.length := length_readSet h
      return piece :: (← piecesFrom (position + 1 + (cs.length - rest.length)) (some ']') rest)
  | c :: cs => return .char c :: (← piecesFrom (position + 1) (some c) cs)
termination_by cs => cs.length
decreasing_by all_goals simp_wf; try omega

/-- The pieces of a pattern. -/
def pieces? (pattern : List Char) : Except Fault (List Piece) := piecesFrom 0 none pattern

/-! ## Matching -/

/-- Whether a set holds a character. -/
def Ranges.holds (ranges : Ranges) (c : Char) : Bool := ranges.any fun (first, last) => first ≤ c && c ≤ last

/-- Whether a piece stands for a character. -/
def Piece.admits : Piece → Char → Bool
  | .char d, c => c == d
  | .oneOf ranges, c => ranges.holds c
  | .noneOf ranges, c => !ranges.holds c
  | _, _ => true

/-- The ends of a list, from the whole list to the empty one. -/
def ends : List Char → List (List Char)
  | [] => [[]]
  | c :: cs => (c :: cs) :: ends cs

/-- Whether a list of pieces stands for a name. -/
def matchesName : List Piece → List Char → Bool
  | [], name => name.isEmpty
  | .anyText :: pieces, name => (ends name).any (matchesName pieces)
  | .anyDepth :: pieces, name => (ends name).any (matchesName pieces)
  | _ :: _, [] => false
  | piece :: pieces, c :: name => piece.admits c && matchesName pieces name

end TypedSettings.Wildcard

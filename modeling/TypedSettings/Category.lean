import TypedSettings.Value

/-!
# Categories

The category of a value says how an accessor reads it: as a scalar of some kind, as a section of its own, as a list of
texts, or not at all. A whole number is read as an integer when 32 bits with sign hold it, and every other number as a
float.
-/

namespace TypedSettings

/-- The kinds of values that an accessor reads in one piece. -/
inductive Scalar where
  | string
  | integer
  | float
  | boolean
  deriving DecidableEq, Repr

/-- How a value is read. A list is read as texts whatever its elements are. -/
inductive Category where
  | scalar (kind : Scalar)
  | nested
  | list
  | absent
  deriving DecidableEq, Repr

/-- The name of a scalar kind in records. -/
def Scalar.name : Scalar → String
  | .string => "string"
  | .integer => "integer"
  | .float => "float"
  | .boolean => "boolean"

/-- What an accessor gives when its key is not set or does not read as its kind. -/
def Scalar.default : Scalar → Value
  | .string => .string ""
  | .integer => .integer 0
  | .float => .float .zero
  | .boolean => .bool false

/-- What a category reads as when nothing is set; a section can always be had, and an absent value never. -/
def Category.default? : Category → Option Value
  | .scalar kind => some kind.default
  | .list => some (.array [])
  | .nested => none
  | .absent => none

/-- Whether 32 bits with sign hold a number. -/
def fitsInt32 (i : Int) : Bool := -2147483648 ≤ i && i ≤ 2147483647

/-- How a whole number is read. -/
def Scalar.ofInteger (i : Int) : Scalar := if fitsInt32 i then .integer else .float

/-- How a value is read. -/
def Value.category : Value → Category
  | .string _ => .scalar .string
  | .integer i => .scalar (.ofInteger i)
  | .float _ => .scalar .float
  | .bool _ => .scalar .boolean
  | .object _ => .nested
  | .array _ => .list
  | .null => .absent

end TypedSettings

import TypedSettings.Binary64

/-!
# JSON values

The tree of a JSON document. The members of an object are kept in the order of the text, under distinct keys: putting a
member under a key that is there replaces the value and keeps the place. A whole number of 64 bits with sign is an
`integer`, every other number a `float`. A value that was not read from a text may hold any double, the infinite ones
and those that are not numbers too.

`Value.agrees` compares two values: arrays by position, objects by key whatever the order of their members, and numbers
of one kind by what they count, so that the two zeros agree, and so does what is not a number with itself.
-/

namespace TypedSettings

/-- A JSON value. -/
inductive Value where
  | null
  | bool (b : Bool)
  | integer (i : Int)
  | float (x : Binary64)
  | string (s : String)
  | array (elements : List Value)
  | object (members : List (String × Value))
  deriving Inhabited

namespace Value

/-- The name of a value's kind in messages. -/
def kindName : Value → String
  | .null => "null"
  | .bool _ => "boolean"
  | .integer _ => "number"
  | .float _ => "number"
  | .string _ => "string"
  | .array _ => "array"
  | .object _ => "object"

/-- The members with one more: a value under a new key goes to the end, under an old key to the place it has. -/
def put (key : String) (value : Value) : List (String × Value) → List (String × Value)
  | [] => [(key, value)]
  | (k, v) :: members => if k = key then (k, value) :: members else (k, v) :: put key value members

/-- The object with the given members, where a later member replaces an earlier one with the same key. -/
def ofMembers (members : List (String × Value)) : Value :=
  .object (members.foldl (fun done (key, value) => put key value done) [])

mutual

/-- Whether two values are the same but for the order of the members of objects. -/
def agrees : Value → Value → Bool
  | .null, .null => true
  | .bool a, .bool b => a == b
  | .integer i, .integer j => i == j
  | .float x, .float y => x.sameNumber y
  | .string s, .string t => s == t
  | .array xs, .array ys => agreeElements xs ys
  | .object ms, .object ns => ms.length == ns.length && agreeMembers ms ns
  | _, _ => false

/-- Whether two lists of values agree place by place. -/
def agreeElements : List Value → List Value → Bool
  | [], [] => true
  | x :: xs, y :: ys => agrees x y && agreeElements xs ys
  | _, _ => false

/-- Whether every member on the left agrees with the member of the same key on the right. -/
def agreeMembers : List (String × Value) → List (String × Value) → Bool
  | [], _ => true
  | (key, x) :: ms, ns => (match ns.lookup key with
    | some y => agrees x y
    | none => false) && agreeMembers ms ns

end

end Value

end TypedSettings

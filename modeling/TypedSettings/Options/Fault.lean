import TypedSettings.Binary64.Shortest
import TypedSettings.Json.Number
import TypedSettings.Options.Setting
import TypedSettings.Text.Quoted

/-!
# Faults in options

A fault in an options text is a cause at a place, with the path of fields that leads to what was being read.
-/

namespace TypedSettings.Options

/-- A value of the wrong kind. -/
inductive Found where
  | null
  | bool (b : Bool)
  | number (n : Json.Number)
  | string (s : String)
  | list
  | object
  deriving DecidableEq, Repr

/-- The wording of a value of the wrong kind. -/
def Found.phrase : Found → String
  | .null => "null"
  | .bool b => "boolean `" ++ (if b then "true" else "false") ++ "`"
  | .number (.whole i) => "integer `" ++ toString i ++ "`"
  | .number (.double x) => "floating point `" ++ x.text ++ "`"
  | .string s => "string " ++ Text.quoted s
  | .list => "sequence"
  | .object => "map"

/-- What was expected in place of a value of the wrong kind. -/
inductive Expected where
  | options
  | text
  | variantName
  | unit
  deriving DecidableEq, Repr

/-- The wording of what was expected. -/
def Expected.phrase : Expected → String
  | .options => "struct GeneratorOptions"
  | .text => "a string"
  | .variantName => "variant identifier"
  | .unit => "unit"

/-- What is wrong with an options text. -/
inductive Cause where
  | json (cause : Json.Cause)
  | wrongKind (found : Found) (expected : Expected)
  | unknownField (name : String)
  | duplicateField (field : Field)
  | unknownVariant (name : String) (known : List String)
  deriving DecidableEq, Repr

/-- The wording of a choice between names. -/
def oneOf : List String → String
  | [a] => "`" ++ a ++ "`"
  | [a, b] => "`" ++ a ++ "` or `" ++ b ++ "`"
  | names => "one of " ++ String.intercalate ", " (names.map fun name => "`" ++ name ++ "`")

/-- The wording of a cause. -/
def Cause.message : Cause → String
  | .json cause => cause.message
  | .wrongKind found expected => "invalid type: " ++ found.phrase ++ ", expected " ++ expected.phrase
  | .unknownField name => "unknown field `" ++ name ++ "`, expected " ++ oneOf (Field.all.map Field.name)
  | .duplicateField field => "duplicate field `" ++ field.name ++ "`"
  | .unknownVariant name known => "unknown variant `" ++ name ++ "`, expected " ++ oneOf known

/-- One step of the path to what was being read. -/
inductive Step where
  | name (name : String)
  | index (i : Nat)
  | unreadKey
  deriving DecidableEq, Repr

/-- The text of a path: names are parted by dots and a place in a list stands in brackets; a dot alone is the top. -/
def pathText : List Step → String
  | [] => "."
  | first :: steps => stepText first ++ String.join (steps.map fun step => match step with
    | .index _ => stepText step
    | _ => "." ++ stepText step)
where
  /-- The text of one step. -/
  stepText : Step → String
    | .name name => name
    | .index i => "[" ++ toString i ++ "]"
    | .unreadKey => "?"

/-- A cause, the path to what was being read, and the number of bytes of the text ahead of the place. -/
structure Fault where
  path : List Step
  cause : Cause
  ahead : Nat
  deriving DecidableEq, Repr

namespace Fault

/-- A fault of the JSON text at a path. -/
def ofJson (path : List Step) (fault : Json.Fault) : Fault := ⟨path, .json fault.cause, fault.ahead⟩

/-- The fault as seen one step further up. -/
def under (step : Step) (fault : Fault) : Fault := { fault with path := step :: fault.path }

/-- The message of a fault in a text, without its path. -/
def detail (fault : Fault) (text : List Char) : String :=
  fault.cause.message ++ " at " ++ (Json.Location.ofAhead text fault.ahead).phrase

end Fault

/-- What is told about an options text that cannot be used. -/
structure Refusal where
  path : String
  detail : String
  deriving DecidableEq, Repr

/-- The message of a refusal. -/
def Refusal.message (refusal : Refusal) : String := "at JSON path " ++ refusal.path ++ " → " ++ refusal.detail

/-- What is told about a fault in a text. -/
def Fault.refusal (fault : Fault) (text : List Char) : Refusal := ⟨pathText fault.path, fault.detail text⟩

end TypedSettings.Options

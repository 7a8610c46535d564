/-!
# Options

What a caller can choose about the generated code. Every field has a default, so that only what differs is named.
-/

namespace TypedSettings

/-- The language of the generated code. -/
inductive Target where
  | rust
  | csharp
  deriving DecidableEq, Repr

/-- The extension of the target's files. -/
def Target.extension : Target → String
  | .rust => "rs"
  | .csharp => "cs"

/-- What happens when two keys of one level have the same identifier: the later one gets a number, or nothing is
generated. -/
inductive OnCollision where
  | suffix
  | error
  deriving DecidableEq, Repr

/-- What happens to a null: no accessor, an accessor that reads a text, or nothing is generated at all. -/
inductive OnNull where
  | skip
  | string
  | error
  deriving DecidableEq, Repr

/-- The choices about the generated code. -/
structure Options where
  /-- The module or namespace around the generated types. -/
  enclosing : String := "AppSettings"
  /-- The type of the whole document. -/
  rootType : String := "AppSettings"
  target : Target := .rust
  onCollision : OnCollision := .suffix
  onNull : OnNull := .skip
  /-- The trait through which the generated code reads its values, where the target declares one. -/
  providerTrait : String := "ConfigProvider"
  deriving DecidableEq, Repr, Inhabited

end TypedSettings

import TypedSettings.Identifier
import TypedSettings.Text.Quoted

/-!
# Findings about a document

An error stops the generation for the whole document; a notice tells of a member that is not exposed as it stands. Both
name a level or a member by the text of its address.
-/

namespace TypedSettings

/-- Why no schema is made of a document. -/
inductive SchemaError where
  | rootNotObject (found : String)
  | nullRejected (address : String)
  | nameCollision (level : String) (first second : String) (identifier : Identifier)
  deriving DecidableEq, Repr

/-- The wording shared by both findings about colliding names. -/
def collisionPhrase (level : String) (first second : String) (identifier : Identifier) : String :=
  "keys " ++ Text.quoted first ++ " and " ++ Text.quoted second ++ " under `" ++ level ++
    "` both normalize to `" ++ identifier.text ++ "`"

/-- The wording of an error. -/
def SchemaError.message : SchemaError → String
  | .rootNotObject found => "configuration root must be an object, found " ++ found
  | .nullRejected address => "value at `" ++ address ++ "` is null and null values are rejected"
  | .nameCollision level first second identifier => collisionPhrase level first second identifier

/-- What is not exposed as it stands. -/
inductive Notice where
  /-- The key `second` is exposed as `resolved`, since `first` has taken its identifier. -/
  | nameCollision (level : String) (first second : String) (identifier resolved : Identifier)
  | nullSkipped (address : String)
  | nullAsString (address : String)
  deriving DecidableEq, Repr

/-- The wording of a notice. -/
def Notice.message : Notice → String
  | .nameCollision level first second identifier resolved =>
    collisionPhrase level first second identifier ++ "; " ++ Text.quoted second ++ " is exposed as `" ++
      resolved.text ++ "`"
  | .nullSkipped address => "`" ++ address ++ "` is null; no accessor generated"
  | .nullAsString address => "`" ++ address ++ "` is null; generated as a string accessor"

end TypedSettings

import TypedSettings.Options

/-!
# Settings

A setting gives one field of the options its value. The fields have names and an order, and a field with a few possible
values has a word for each of them.
-/

namespace TypedSettings

/-- The fields of the options. -/
inductive Field where
  | enclosing
  | rootType
  | target
  | onCollision
  | onNull
  | providerTrait
  deriving DecidableEq, Repr

namespace Field

/-- All fields in their order. -/
def all : List Field := [.enclosing, .rootType, .target, .onCollision, .onNull, .providerTrait]

/-- The name of a field. -/
def name : Field → String
  | .enclosing => "namespace"
  | .rootType => "root_type"
  | .target => "target"
  | .onCollision => "collisions"
  | .onNull => "null_values"
  | .providerTrait => "provider_trait"

/-- The field of a name. -/
def ofName? (name : String) : Option Field := all.find? (·.name == name)

end Field

/-- The words for targets. -/
def Target.words : List (String × Target) := [("rust", .rust), ("cs", .csharp), ("csharp", .csharp)]

/-- The words for what happens to colliding names. -/
def OnCollision.words : List (String × OnCollision) := [("suffix", .suffix), ("error", .error)]

/-- The words for what happens to nulls. -/
def OnNull.words : List (String × OnNull) := [("skip", .skip), ("string", .string), ("error", .error)]

/-- A field with a value for it. -/
inductive Setting where
  | enclosing (name : String)
  | rootType (name : String)
  | target (target : Target)
  | onCollision (policy : OnCollision)
  | onNull (policy : OnNull)
  | providerTrait (name : String)
  deriving DecidableEq, Repr

/-- The field of a setting. -/
def Setting.field : Setting → Field
  | .enclosing _ => .enclosing
  | .rootType _ => .rootType
  | .target _ => .target
  | .onCollision _ => .onCollision
  | .onNull _ => .onNull
  | .providerTrait _ => .providerTrait

/-- The options with one setting made. -/
def Options.set (options : Options) : Setting → Options
  | .enclosing name => { options with enclosing := name }
  | .rootType name => { options with rootType := name }
  | .target target => { options with target := target }
  | .onCollision policy => { options with onCollision := policy }
  | .onNull policy => { options with onNull := policy }
  | .providerTrait name => { options with providerTrait := name }

/-- The options with a list of settings made one after the other. -/
def Options.setAll (options : Options) (settings : List Setting) : Options := settings.foldl Options.set options

end TypedSettings

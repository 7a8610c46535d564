import TypedSettings.Notice
import TypedSettings.Options
import TypedSettings.Scope
import TypedSettings.Section

/-!
# Schemas

The shape of a document is its schema: a section for every object that is reached through objects, and an accessor for
every member, with notices about all that is not exposed as it stands. `Schema.ofValue` makes the schema of a document
by one pass over it. At each level the identifiers given out so far stand in a table of owners (`Owners`), so that a
later key with the same identifier gets a number, or stops the pass.

Notices come in the order of the pass: members in the order of the text, those of a nested object before the collision
of its own key.
-/

namespace TypedSettings

/-- The identifiers given out at one level, each with the key that owns it. -/
structure Owners where
  entries : List (Identifier × String)
  deriving Repr

namespace Owners

/-- The table of a level without members. -/
def empty : Owners := ⟨[]⟩

/-- The key that owns an identifier. -/
def owner? (owners : Owners) (identifier : Identifier) : Option String := owners.entries.lookup identifier

/-- Whether an identifier is given out. -/
def holds (owners : Owners) (identifier : Identifier) : Bool := (owners.owner? identifier).isSome

/-- The table with one more identifier given out. -/
def give (owners : Owners) (identifier : Identifier) (key : String) : Owners := ⟨(identifier, key) :: owners.entries⟩

/-- The identifier that a later key gets: its own one with the least number from 2 upwards that makes it free. -/
def resolve (owners : Owners) (natural : Identifier) : Identifier :=
  firstFree owners.holds natural.numbered owners.entries.length 2

/-- Names a key of the level at `level`: gives its identifier, the table in which the key owns it, and what is to be
told. -/
def name (owners : Owners) (onCollision : OnCollision) (level : Address) (key : String) :
    Except SchemaError (Identifier × Owners × List Notice) :=
  let natural := Identifier.ofKey key
  match owners.owner? natural with
  | none => .ok (natural, owners.give natural key, [])
  | some first =>
    match onCollision with
    | .error => .error (.nameCollision level.levelName first key natural)
    | .suffix =>
      let resolved := owners.resolve natural
      .ok (resolved, owners.give resolved key, [.nameCollision level.levelName first key natural resolved])

end Owners

/-- The sections and accessors of a document, and what is to be told about them. -/
structure Schema where
  root : Section
  notices : List Notice
  deriving Inhabited

namespace Schema

/-- The section of an object with the given members, once its accessors are made. -/
def sectionOf (level : Address) (depth : Nat) (members : List (String × Value)) (accessors : List Accessor) : Section :=
  ⟨level, depth, accessors, members.any fun (key, _) => !Key.isPlain key⟩

/-- What becomes of a null. -/
def nullAccess (onNull : OnNull) (address : Address) : Except SchemaError (Option Access × List Notice) :=
  match onNull with
  | .skip => .ok (none, [.nullSkipped address.text])
  | .string => .ok (some (.scalar .string), [.nullAsString address.text])
  | .error => .error (.nullRejected address.text)

mutual

/-- The accessors of an object's members, given those of the level that are named already. -/
def accessorsOf (options : Options) (level : Address) (depth : Nat) (owners : Owners) :
    List (String × Value) → Except SchemaError (List Accessor × List Notice)
  | [] => .ok ([], [])
  | (key, value) :: members => do
    match ← accessOf options (level.child key) depth value with
    | (none, notices) =>
      let (accessors, more) ← accessorsOf options level depth owners members
      return (accessors, notices ++ more)
    | (some access, notices) =>
      let (identifier, owners, collision) ← owners.name options.onCollision level key
      let (accessors, more) ← accessorsOf options level depth owners members
      return (⟨identifier, key, level.child key, access⟩ :: accessors, notices ++ collision ++ more)

/-- What the accessor of a value at an address gives, or nothing for a null that is skipped. -/
def accessOf (options : Options) (address : Address) (depth : Nat) :
    Value → Except SchemaError (Option Access × List Notice)
  | .object members => do
    let (accessors, notices) ← accessorsOf options address (depth + 1) .empty members
    return (some (.nested (sectionOf address (depth + 1) members accessors)), notices)
  | .null => nullAccess options.onNull address
  | .array _ => .ok (some .list, [])
  | .string _ => .ok (some (.scalar .string), [])
  | .bool _ => .ok (some (.scalar .boolean), [])
  | .integer i => .ok (some (.scalar (.ofInteger i)), [])
  | .float _ => .ok (some (.scalar .float), [])

end

/-- The schema of a document. -/
def ofValue (options : Options) : Value → Except SchemaError Schema
  | .object members => do
    let (accessors, notices) ← accessorsOf options .root 0 .empty members
    return ⟨sectionOf .root 0 members accessors, notices⟩
  | value => .error (.rootNotObject value.kindName)

end Schema

end TypedSettings

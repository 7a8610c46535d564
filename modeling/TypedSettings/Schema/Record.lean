import TypedSettings.Schema

/-!
# Records of schemas

The record of a schema is a JSON value that holds all of it, with addresses written as their texts.
-/

namespace TypedSettings

namespace Section

mutual

/-- The record of a section. -/
def record : Section → Value
  | ⟨address, depth, accessors, hasLookup⟩ => .object
    [("path", .string address.text), ("depth", .integer depth), ("accessors", .array (recordAccessors accessors)),
      ("fallback", .bool hasLookup)]

/-- The records of accessors. -/
def recordAccessors : List Accessor → List Value
  | [] => []
  | ⟨identifier, key, address, access⟩ :: accessors => .object
    [("identifier", .string identifier.text), ("raw_key", .string key), ("path", .string address.text),
      ("kind", recordAccess access)] :: recordAccessors accessors

/-- The record of an access. -/
def recordAccess : Access → Value
  | .scalar kind => .object [("scalar", .string kind.name)]
  | .list => .string "sequence"
  | .nested child => .object [("container", record child)]

end

end Section

/-- The record of a notice. -/
def Notice.record : Notice → Value
  | .nameCollision level first second identifier resolved => .object
    [("kind", .string "name_collision"), ("level", .string level), ("first", .string first),
      ("second", .string second), ("identifier", .string identifier.text), ("resolved", .string resolved.text)]
  | .nullSkipped address => .object [("kind", .string "null_skipped"), ("path", .string address)]
  | .nullAsString address => .object [("kind", .string "null_as_string"), ("path", .string address)]

/-- The record of a schema. -/
def Schema.record (schema : Schema) : Value :=
  .object [("root", schema.root.record), ("diagnostics", .array (schema.notices.map Notice.record))]

end TypedSettings

import TypedSettings.Address
import TypedSettings.Category
import TypedSettings.Identifier

/-!
# Sections and their accessors

A section stands for one object of the document. Its accessors are in the order of the object's members, each with the
raw key that it reads; an accessor of a nested section holds that section. A section with a key that an identifier does
not show faithfully also offers a lookup by raw key.
-/

namespace TypedSettings

mutual

/-- One object of the document. -/
structure Section where
  address : Address
  depth : Nat
  accessors : List Accessor
  hasLookup : Bool

/-- The named access to one member of an object. -/
structure Accessor where
  identifier : Identifier
  key : String
  address : Address
  access : Access

/-- What an accessor gives: a scalar, the texts of a list, or a section. -/
inductive Access where
  | scalar (kind : Scalar)
  | list
  | nested (child : Section)

end

namespace Access

/-- The nested section, if there is one. -/
def nested? : Access → Option Section
  | .nested child => some child
  | _ => none

/-- Whether a section is accessed. -/
def isNested (access : Access) : Bool := access.nested?.isSome

end Access

instance : Inhabited Section := ⟨⟨.root, 0, [], false⟩⟩

namespace Section

mutual

/-- The section and all sections inside it, each before those inside it. -/
def walk : Section → List Section
  | ⟨address, depth, accessors, hasLookup⟩ => ⟨address, depth, accessors, hasLookup⟩ :: walkAccessors accessors

/-- The sections inside those of a list of accessors. -/
def walkAccessors : List Accessor → List Section
  | [] => []
  | ⟨_, _, _, access⟩ :: accessors => walkAccess access ++ walkAccessors accessors

/-- The sections that an access reaches. -/
def walkAccess : Access → List Section
  | .nested child => walk child
  | .scalar _ => []
  | .list => []

end

/-- The accessor of a name. -/
def accessor? (s : Section) (name : String) : Option Accessor := s.accessors.find? (·.identifier.text == name)

/-- The nested section of a name. -/
def child? (s : Section) (name : String) : Option Section := do (← s.accessor? name).access.nested?

end Section

end TypedSettings

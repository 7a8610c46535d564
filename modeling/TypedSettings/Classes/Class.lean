import TypedSettings.Scope
import TypedSettings.Section
import TypedSettings.Classes.Name

/-!
# The nested classes

A schema becomes one class, and every nested section a class inside that of its parent. A class has a property for every
accessor; the property of a nested section makes an object of the section's class. Names are given out within one class,
for properties and for the classes inside it alike, and the name of the class itself is in use from the start.
-/

namespace TypedSettings.Classes

mutual

/-- A class over the configuration. -/
structure Class where
  name : String
  address : Address
  members : List Member
  hasIndexer : Bool

/-- A property that reads at an address, with a comment that shows the address unless it can be told from the name. -/
structure Member where
  name : String
  address : Address
  isCommented : Bool
  gives : Gives

/-- What a property gives: a scalar, the texts of a list, or an object of a class inside. -/
inductive Gives where
  | scalar (kind : Scalar)
  | list
  | object (type : Class)

end

/-- The name that stands for the indexer among the members. -/
def indexerName : String := "Item"

/-- The names of a class that are kept from its members. -/
def memberScope (name : String) (hasIndexer : Bool) : Scope :=
  let scope := (Scope.empty "").reserve name
  if hasIndexer then scope.reserve indexerName else scope

mutual

/-- The class of a section under a name. -/
def planClass (name : String) : Section → Class
  | ⟨address, _, accessors, hasLookup⟩ =>
    ⟨name, address, planMembers (memberScope name hasLookup) accessors, hasLookup⟩

/-- The properties for a list of accessors, given the names in use. -/
def planMembers (names : Scope) : List Accessor → List Member
  | [] => []
  | ⟨identifier, key, address, access⟩ :: accessors =>
    let (name, names) := names.claim identifier.text
    let (gives, names) := planGives name names access
    ⟨name, address, !Key.isPlain key, gives⟩ :: planMembers names accessors

/-- What the property of a name gives, and the names in use once it is planned. -/
def planGives (property : String) (names : Scope) : Access → Gives × Scope
  | .scalar kind => (.scalar kind, names)
  | .list => (.list, names)
  | .nested child =>
    let (name, names) := names.claim (property ++ "Settings")
    (.object (planClass name child), names)

end

/-- The class of a document. -/
def Class.plan (options : Options) (root : Section) : Class := planClass (Identifier.ofKey options.rootType).text root

end TypedSettings.Classes

/-!
# Addresses

An address is the list of raw keys that leads from the document's root to a value. Its text, the keys joined with
colons, is what generated code hands to the configuration provider; it never holds an identifier.
-/

namespace TypedSettings

/-- The raw keys on the way from the root to a value. -/
structure Address where
  keys : List String
  deriving DecidableEq, Repr, Inhabited

namespace Address

/-- The address of the whole document. -/
def root : Address := ⟨[]⟩

/-- The address of a member of the object at an address. -/
def child (address : Address) (key : String) : Address := ⟨address.keys ++ [key]⟩

/-- Whether an address is the root's. -/
def isRoot (address : Address) : Bool := address.keys.isEmpty

/-- The key that was added last. -/
def last? (address : Address) : Option String := address.keys.getLast?

/-- The keys joined with colons. -/
def text (address : Address) : String := String.intercalate ":" address.keys

/-- What stands in front of a key in the text of a child's address: nothing at the root, the text and a colon below. -/
def stem (address : Address) : String := if address.isRoot then "" else address.text ++ ":"

/-- The name of a level in messages. -/
def levelName (address : Address) : String := if address.isRoot then "<root>" else address.text

end Address

end TypedSettings
